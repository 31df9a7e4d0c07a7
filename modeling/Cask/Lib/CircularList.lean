import Mathlib.Data.List.Nodup
import Mathlib.Logic.Function.Basic

/-! # Intrusive circular lists

A doubly linked list whose nodes are part of the elements, with a head that is a node of its
own and an element of no one.  The links are kept apart from the elements, as two functions on
pointers; `Circular` says which elements the links go through, in order.
-/

namespace CircularList

/-- A pointer to the head, to the node of an element, or to nothing. -/
inductive Ptr (α : Type) where
  | head
  | node (a : α)
  | null
  deriving DecidableEq

structure Links (α : Type) where
  prev : Ptr α → Ptr α
  next : Ptr α → Ptr α

variable {α : Type} [DecidableEq α]

/-- An empty list. -/
def init : Links α := ⟨fun _ => .head, fun _ => .head⟩

/-- Link a node between two others. -/
def Links.add (links : Links α) (node prev next : Ptr α) : Links α where
  prev := Function.update (Function.update links.prev next node) node prev
  next := Function.update (Function.update links.next node next) prev node

def Links.addTail (links : Links α) (a : α) : Links α :=
  links.add (.node a) (links.prev .head) .head

/-- Unlink a node, and forget its own links. -/
def Links.del (links : Links α) (a : α) : Links α where
  prev := Function.update (Function.update links.prev (links.next (.node a)) (links.prev (.node a))) (.node a) .null
  next := Function.update (Function.update links.next (links.prev (.node a)) (links.next (.node a))) (.node a) .null

/-! ## Paths -/

/-- The links lead from `p` through the nodes of `xs` to `q`, and back. -/
def Path (links : Links α) (p : Ptr α) : List α → Ptr α → Prop
  | [], q => links.next p = q ∧ links.prev q = p
  | x :: xs, q => links.next p = .node x ∧ links.prev (.node x) = p ∧ Path links (.node x) xs q

/-- The last pointer in front of the end of a path. -/
def lastPtr (p : Ptr α) : List α → Ptr α
  | [] => p
  | x :: xs => lastPtr (.node x) xs

/-- The first pointer behind the start of a path. -/
def firstPtr (q : Ptr α) : List α → Ptr α
  | [] => q
  | x :: _ => .node x

section Path

omit [DecidableEq α]

variable {links links' : Links α} {p q q' : Ptr α} {xs ys : List α} {a : α}

theorem path_append :
    Path links p (xs ++ a :: ys) q ↔ Path links p xs (.node a) ∧ Path links (.node a) ys q := by
  induction xs generalizing p with
  | nil => simp [Path, and_assoc]
  | cons x xs ih => simp [Path, ih, and_assoc]

theorem Path.first (path : Path links p xs q) : links.next p = firstPtr q xs := by
  cases xs with
  | nil => exact path.1
  | cons x xs => exact path.1

/-- The links lead back to the head in one way. -/
theorem Path.unique (path : Path links p xs .head) (path' : Path links p ys .head) : xs = ys := by
  induction xs generalizing p ys with
  | nil =>
    cases ys with
    | nil => rfl
    | cons y ys =>
      have clash := path.1.symm.trans path'.1
      cases clash
  | cons x xs ih =>
    cases ys with
    | nil =>
      have clash := path.1.symm.trans path'.1
      cases clash
    | cons y ys =>
      have same := path.1.symm.trans path'.1
      cases same
      rw [ih path.2.2 path'.2.2]

theorem Path.last (path : Path links p xs q) : links.prev q = lastPtr p xs := by
  induction xs generalizing p with
  | nil => exact path.2
  | cons x xs ih => exact ih path.2.2

theorem lastPtr_mem (p : Ptr α) (xs : List α) : lastPtr p xs ∈ p :: xs.map .node := by
  induction xs generalizing p with
  | nil => simp [lastPtr]
  | cons x xs ih => exact List.mem_cons_of_mem _ (ih (.node x))

/-- A path whose own links are unchanged, up to a new end. -/
theorem Path.retarget (path : Path links p xs q) (distinct : (p :: xs.map .node).Nodup)
    (next : ∀ r ∈ p :: xs.map .node, r ≠ lastPtr p xs → links'.next r = links.next r)
    (prev : ∀ x ∈ xs, links'.prev (.node x) = links.prev (.node x))
    (end_next : links'.next (lastPtr p xs) = q') (end_prev : links'.prev q' = lastPtr p xs) :
    Path links' p xs q' := by
  induction xs generalizing p with
  | nil => exact ⟨end_next, end_prev⟩
  | cons x xs ih =>
    obtain ⟨forward, back, rest⟩ := path
    rw [List.map_cons, List.nodup_cons] at distinct
    have other : p ≠ lastPtr p (x :: xs) := by
      intro same
      apply distinct.1
      rw [same]
      exact lastPtr_mem (.node x) xs
    refine ⟨(next p (by simp) other).trans forward, (prev x (by simp)).trans back, ?_⟩
    exact ih rest distinct.2 (fun r member => next r (List.mem_cons_of_mem _ member))
      (fun y member => prev y (List.mem_cons_of_mem _ member)) end_next end_prev

theorem Path.congr (path : Path links p xs q)
    (next : ∀ r ∈ p :: xs.map .node, links'.next r = links.next r)
    (prev : ∀ x ∈ xs, links'.prev (.node x) = links.prev (.node x))
    (back : links'.prev q = links.prev q) : Path links' p xs q := by
  induction xs generalizing p with
  | nil => exact ⟨(next p (by simp)).trans path.1, back.trans path.2⟩
  | cons x xs ih =>
    obtain ⟨forward, before, rest⟩ := path
    refine ⟨(next p (by simp)).trans forward, (prev x (by simp)).trans before, ?_⟩
    exact ih rest (fun r member => next r (List.mem_cons_of_mem _ member))
      fun y member => prev y (List.mem_cons_of_mem _ member)

end Path

/-! ## Lists -/

/-- The elements of the list, in order. -/
structure Circular (links : Links α) (xs : List α) : Prop where
  distinct : xs.Nodup
  path : Path links .head xs .head

omit [DecidableEq α] in
theorem circular_init : Circular (init : Links α) [] := ⟨List.nodup_nil, rfl, rfl⟩

omit [DecidableEq α] in
theorem nodup_head {xs : List α} (distinct : xs.Nodup) :
    (.head :: xs.map .node : List (Ptr α)).Nodup := by
  refine List.nodup_cons.mpr ⟨by simp, ?_⟩
  exact List.Nodup.map (fun _ _ same => Ptr.node.inj same) distinct

omit [DecidableEq α] in
theorem node_not_mem {xs : List α} {a : α} (fresh : a ∉ xs) :
    .node a ∉ (.head :: xs.map .node : List (Ptr α)) := by
  simpa using fresh

variable {links : Links α} {xs : List α} {a : α}

omit [DecidableEq α] in
/-- The links have one list. -/
theorem Circular.unique {ys : List α} (circular : Circular links xs) (circular' : Circular links ys) : xs = ys :=
  circular.path.unique circular'.path

omit [DecidableEq α] in
theorem Circular.last_mem (circular : Circular links xs) :
    links.prev .head ∈ (.head :: xs.map .node : List (Ptr α)) := by
  rw [circular.path.last]
  exact lastPtr_mem _ _

omit [DecidableEq α] in
/-- The neighbours of an element are elements, or the head. -/
theorem Circular.neighbours (circular : Circular links xs) (member : a ∈ xs) :
    links.prev (.node a) ∈ (.head :: xs.map .node : List (Ptr α)) ∧
      links.next (.node a) ∈ (.head :: xs.map .node : List (Ptr α)) := by
  obtain ⟨pre, post, rfl⟩ := List.append_of_mem member
  obtain ⟨before, after⟩ := path_append.mp circular.path
  constructor
  · rw [before.last]
    have inside := lastPtr_mem .head pre
    simp only [List.mem_cons, List.map_append, List.mem_append] at inside ⊢
    exact inside.imp_right .inl
  · rw [after.first]
    cases post <;> simp [firstPtr]

theorem Circular.addTail (circular : Circular links xs) (fresh : a ∉ xs) :
    Circular (links.addTail a) (xs ++ [a]) := by
  have absent := node_not_mem fresh
  have last := circular.path.last
  have other : lastPtr .head xs ≠ .node a := fun same => absent (same ▸ lastPtr_mem _ _)
  refine ⟨List.nodup_append.mpr ⟨circular.distinct, by simp, ?_⟩, path_append.mpr ⟨?_, ?_⟩⟩
  · rintro x member y new rfl
    exact fresh (List.mem_singleton.mp new ▸ member)
  · apply circular.path.retarget (nodup_head circular.distinct)
    · intro r member differs
      have notNew : r ≠ .node a := fun same => absent (same ▸ member)
      simp [Links.addTail, Links.add, Function.update, last, differs, notNew]
    · intro x member
      have notNew : x ≠ a := fun same => fresh (same ▸ member)
      simp [Links.addTail, Links.add, Function.update, notNew]
    · simp [Links.addTail, Links.add, last]
    · simp [Links.addTail, Links.add, last]
  · constructor
    · have notLast : Ptr.node a ≠ lastPtr .head xs := other.symm
      simp [Links.addTail, Links.add, Function.update, last, notLast]
    · simp [Links.addTail, Links.add, Function.update]

theorem del_next {r : Ptr α} (other : r ≠ .node a) :
    (links.del a).next r = if r = links.prev (.node a) then links.next
      (.node a) else links.next r := by
  simp [Links.del, Function.update, other]

theorem del_prev {r : Ptr α} (other : r ≠ .node a) :
    (links.del a).prev r = if r = links.next (.node a) then links.prev
      (.node a) else links.prev r := by
  simp [Links.del, Function.update, other]

omit [DecidableEq α] in
/-- The parts of a list around one of its elements do not meet. -/
theorem apart_of_nodup {pre post : List α} (distinct : (pre ++ a :: post).Nodup) :
    pre.Nodup ∧ post.Nodup ∧ a ∉ pre ∧ a ∉ post ∧ ∀ x ∈ pre, x ∉ post := by
  rw [List.nodup_append, List.nodup_cons] at distinct
  obtain ⟨first, ⟨absent, second⟩, across⟩ := distinct
  exact ⟨first, second, fun early => across a early a (List.mem_cons_self ..) rfl, absent,
    fun x early late => across x early x (List.mem_cons_of_mem _ late) rfl⟩

omit [DecidableEq α] in
theorem node_eq_firstPtr {x : α} {post : List α} (same : .node x = firstPtr .head post) :
    x ∈ post := by
  cases post with
  | nil => cases same
  | cons y post =>
    cases same
    exact List.mem_cons_self ..

omit [DecidableEq α] in
theorem node_eq_lastPtr {x : α} {pre : List α} (same : .node x = lastPtr .head pre) : x ∈ pre := by
  have inside := lastPtr_mem .head pre
  rw [← same] at inside
  simpa using inside

/-- In front of a removed node, the list goes on with what came behind it. -/
theorem Path.del_front {pre post : List α} (before : Path links .head pre (.node a))
    (after : Path links (.node a) post .head) (distinct : (pre ++ a :: post).Nodup) :
    Path (links.del a) .head pre (firstPtr .head post) := by
  obtain ⟨distinctPre, -, notBefore, notAfter, disjoint⟩ := apart_of_nodup distinct
  have notLast : lastPtr .head pre ≠ .node a := fun same => notBefore (node_eq_lastPtr same.symm)
  have notFirst : firstPtr .head post ≠ .node a := fun same => notAfter (node_eq_firstPtr same.symm)
  apply before.retarget (nodup_head distinctPre)
  · intro r inside differs
    have notNode : r ≠ .node a := fun same => node_not_mem notBefore (same ▸ inside)
    rw [del_next notNode, before.last, if_neg differs]
  · intro x inside
    have notNode : Ptr.node x ≠ .node a := by
      rintro ⟨⟩
      exact notBefore inside
    rw [del_prev notNode, after.first, if_neg fun same => disjoint x inside (node_eq_firstPtr same)]
  · rw [del_next notLast, before.last, if_pos rfl, after.first]
  · rw [del_prev notFirst, after.first, if_pos rfl, before.last]

/-- Behind a removed node, only the back link of the next one changes. -/
theorem Path.del_back {pre post : List α} {y : α} (before : Path links .head pre (.node a))
    (after : Path links (.node a) (y :: post) .head) (distinct : (pre ++ a :: y :: post).Nodup) :
    Path (links.del a) (.node y) post .head := by
  obtain ⟨-, distinctPost, -, notAfter, disjoint⟩ := apart_of_nodup distinct
  have notFirst : y ∉ post := (List.nodup_cons.mp distinctPost).1
  have notNode : ∀ x ∈ y :: post, Ptr.node x ≠ .node a := by
    rintro x inside ⟨⟩
    exact notAfter inside
  apply after.2.2.congr
  · intro r inside
    rw [← List.map_cons] at inside
    obtain ⟨x, late, rfl⟩ := List.mem_map.mp inside
    rw [del_next (notNode x late), before.last,
      if_neg fun same => disjoint x (node_eq_lastPtr same) late]
  · intro x late
    rw [del_prev (notNode x (List.mem_cons_of_mem _ late)), after.first, if_neg]
    rintro ⟨⟩
    exact notFirst late
  · rw [del_prev (by simp), after.first, if_neg (by simp [firstPtr])]

theorem Circular.del (circular : Circular links xs) (member : a ∈ xs) :
    Circular (links.del a) (xs.erase a) := by
  obtain ⟨pre, post, rfl⟩ := List.append_of_mem member
  obtain ⟨distinct, path⟩ := circular
  obtain ⟨before, after⟩ := path_append.mp path
  have erased : (pre ++ a :: post).erase a = pre ++ post := by
    rw [List.erase_append_right _ (apart_of_nodup distinct).2.2.1, List.erase_cons_head]
  refine ⟨distinct.erase a, ?_⟩
  rw [erased]
  have front := before.del_front after distinct
  cases post with
  | nil =>
    rw [List.append_nil]
    exact front
  | cons y post => exact path_append.mpr ⟨front, before.del_back after distinct⟩

end CircularList
