import Mathlib.Algebra.Group.Nat.Defs
import Mathlib.Data.Nat.Log
import Mathlib.Data.List.Basic

/-! # Coloured binary trees and their contexts

Binary trees with a colour and a label at every node, the red-black balance condition,
and one-hole contexts (`Context`) with the innermost frame first.  Mirror images are treated
once: `Bintree.branch d` builds a node from its child on side `d` and the child on the other
side, so a statement about `branch d` covers both directions.

`BlackBalanced t n` says that `t` has no red node with a red child and `n` black nodes on every
path to a leaf.  `Fits p n` says that the context `p` accepts a tree of black height `n`.
The two meet in `BlackBalanced.plug` and `BlackBalanced.unplug`.
-/

namespace ColorTree

variable {α : Type}

inductive Color where
  | black
  | red
  deriving DecidableEq, Repr

inductive Dir where
  | left
  | right
  deriving DecidableEq, Repr

def Dir.other : Dir → Dir
  | .left => .right
  | .right => .left

@[simp] theorem Dir.other_other (d : Dir) : d.other.other = d := by cases d <;> rfl

theorem Dir.eq_or_other (d e : Dir) : e = d ∨ e = d.other := by cases d <;> cases e <;> decide

/-! ## Trees -/

inductive Bintree (α : Type) where
  | nil
  | node (color : Color) (left : Bintree α) (label : α) (right : Bintree α)

namespace Bintree

/-- Leaves count as black. -/
def color : Bintree α → Color
  | nil => .black
  | node c _ _ _ => c

/-- The labels in order. -/
def labels : Bintree α → List α
  | nil => []
  | node _ l a r => l.labels ++ a :: r.labels

def height : Bintree α → Nat
  | nil => 0
  | node _ l _ r => max l.height r.height + 1

/-- A node from its child on side `d` and its child on the other side. -/
def branch (d : Dir) (c : Color) (near : Bintree α) (a : α) (far : Bintree α) : Bintree α :=
  match d with
  | .left => node c near a far
  | .right => node c far a near

def blacken : Bintree α → Bintree α
  | nil => nil
  | node _ l a r => node .black l a r

@[simp] theorem branch_color (d : Dir) (c : Color) (near far : Bintree α) (a : α) :
    (branch d c near a far).color = c := by cases d <;> rfl

theorem branch_other (d : Dir) (c : Color) (near far : Bintree α) (a : α) :
    branch d.other c near a far = branch d c far a near := by cases d <;> rfl

@[simp] theorem blacken_branch (d : Dir) (c : Color) (near far : Bintree α) (a : α) :
    (branch d c near a far).blacken = branch d .black near a far := by cases d <;> rfl

@[simp] theorem blacken_color (t : Bintree α) : t.blacken.color = .black := by cases t <;> rfl

theorem blacken_of_black {t : Bintree α} (black : t.color = .black) : t.blacken = t := by
  cases t with
  | nil => rfl
  | node c l a r =>
    obtain rfl : c = .black := black
    rfl

theorem mem_labels_branch {d : Dir} {c : Color} {near far : Bintree α} {a b : α} :
    b ∈ (branch d c near a far).labels ↔ b = a ∨ b ∈ near.labels ∨ b ∈ far.labels := by
  cases d <;> simp only [branch, labels, List.mem_append, List.mem_cons] <;> tauto

/-- Every node is a branch, from either side. -/
theorem exists_branch (d : Dir) {t : Bintree α} (notNil : t ≠ nil) :
    ∃ near a far, t = branch d t.color near a far := by
  cases t with
  | nil => exact absurd rfl notNil
  | node c l a r =>
    cases d with
    | left => exact ⟨l, a, r, rfl⟩
    | right => exact ⟨r, a, l, rfl⟩

theorem branch_ne_nil {d : Dir} {c : Color} {near far : Bintree α} {a : α} :
    branch d c near a far ≠ nil := by
  cases d <;> simp [branch]

/-- A rotation does not change the order of the labels. -/
theorem labels_rotate (d : Dir) (c c' e e' : Color) (near middle far : Bintree α) (a b : α) :
    (branch d c (branch d c' near a middle) b far).labels =
      (branch d e near a (branch d e' middle b far)).labels := by
  cases d <;> simp [branch, labels]

theorem labels_recolor (d : Dir) (c c' : Color) {near near' far far' : Bintree α} (a : α)
    (sameNear : near.labels = near'.labels) (sameFar : far.labels = far'.labels) :
    (branch d c near a far).labels = (branch d c' near' a far').labels := by
  cases d <;> simp [branch, labels, sameNear, sameFar]

end Bintree

/-! ## Balance -/

/-- No red node has a red child, and `n` black nodes lie on every path to a leaf. -/
inductive BlackBalanced : Bintree α → Nat → Prop where
  | nil : BlackBalanced .nil 0
  | black {l r : Bintree α} {a : α} {n : Nat} (left : BlackBalanced l n) (right : BlackBalanced r n) :
      BlackBalanced (.node .black l a r) (n + 1)
  | red {l r : Bintree α} {a : α} {n : Nat} (left : BlackBalanced l n) (right : BlackBalanced r n)
      (leftBlack : l.color = .black) (rightBlack : r.color = .black) : BlackBalanced (.node .red l a r) n

theorem balanced_black {d : Dir} {near far : Bintree α} {a : α} {n : Nat}
    (hn : BlackBalanced near n) (hf : BlackBalanced far n) :
    BlackBalanced (.branch d .black near a far) (n + 1) := by
  cases d with
  | left => exact .black hn hf
  | right => exact .black hf hn

theorem balanced_red {d : Dir} {near far : Bintree α} {a : α} {n : Nat} (hn : BlackBalanced near n)
    (hf : BlackBalanced far n) (nearBlack : near.color = .black) (farBlack : far.color = .black) :
    BlackBalanced (.branch d .red near a far) n := by
  cases d with
  | left => exact .red hn hf nearBlack farBlack
  | right => exact .red hf hn farBlack nearBlack

theorem BlackBalanced.of_black {d : Dir} {near far : Bintree α} {a : α} {n : Nat}
    (bal : BlackBalanced (.branch d .black near a far) n) :
    ∃ m, n = m + 1 ∧ BlackBalanced near m ∧ BlackBalanced far m := by
  cases d with
  | left =>
    cases bal with
    | black left right => exact ⟨_, rfl, left, right⟩
  | right =>
    cases bal with
    | black left right => exact ⟨_, rfl, right, left⟩

theorem BlackBalanced.of_red {d : Dir} {near far : Bintree α} {a : α} {n : Nat}
    (bal : BlackBalanced (.branch d .red near a far) n) :
    BlackBalanced near n ∧ BlackBalanced far n ∧ near.color = .black ∧ far.color = .black := by
  cases d with
  | left =>
    cases bal with
    | red left right leftBlack rightBlack => exact ⟨left, right, leftBlack, rightBlack⟩
  | right =>
    cases bal with
    | red left right leftBlack rightBlack => exact ⟨right, left, rightBlack, leftBlack⟩

/-- Blackening the root keeps the balance, at the same black height or one more. -/
theorem BlackBalanced.blacken {t : Bintree α} {n : Nat} (bal : BlackBalanced t n) :
    ∃ m, BlackBalanced t.blacken m := by
  cases bal with
  | nil => exact ⟨0, .nil⟩
  | black left right => exact ⟨_, .black left right⟩
  | red left right _ _ => exact ⟨_, .black left right⟩

/-- A red root turned black adds one to the black height. -/
theorem BlackBalanced.blacken_red {t : Bintree α} {n : Nat} (bal : BlackBalanced t n)
    (red : t.color = .red) : BlackBalanced t.blacken (n + 1) := by
  cases bal with
  | nil => cases red
  | black _ _ => cases red
  | red left right _ _ => exact .black left right

theorem BlackBalanced.size_ge {t : Bintree α} {n : Nat} (bal : BlackBalanced t n) :
    2 ^ n ≤ t.labels.length + 1 := by
  induction bal with
  | nil => simp
  | black _ _ ihl ihr =>
    simp only [Bintree.labels, List.length_append, List.length_cons, Nat.pow_succ]
    omega
  | red _ _ _ _ ihl ihr =>
    simp only [Bintree.labels, List.length_append, List.length_cons]
    omega

theorem BlackBalanced.height_le {t : Bintree α} {n : Nat} (bal : BlackBalanced t n) :
    t.height ≤ 2 * n + 1 ∧ (t.color = .black → t.height ≤ 2 * n) := by
  induction bal with
  | nil => simp [Bintree.height]
  | black _ _ ihl ihr =>
    simp only [Bintree.height]
    omega
  | red _ _ leftBlack rightBlack ihl ihr =>
    have hl := ihl.2 leftBlack
    have hr := ihr.2 rightBlack
    simp only [Bintree.height, Bintree.color, reduceCtorEq, false_implies, and_true]
    omega

/-- A balanced tree with a black root is at most twice as high as a complete tree of its size. -/
theorem BlackBalanced.height_le_log {t : Bintree α} {n : Nat} (bal : BlackBalanced t n)
    (black : t.color = .black) : t.height ≤ 2 * Nat.log 2 (t.labels.length + 1) := by
  have log : n ≤ Nat.log 2 (t.labels.length + 1) := Nat.le_log_of_pow_le (by omega) bal.size_ge
  have height := bal.height_le.2 black
  omega

/-! ## Contexts -/

/-- One step from the root: the side that was taken, the node it was taken at, and the subtree
that was left aside. -/
structure Frame (α : Type) where
  dir : Dir
  color : Color
  label : α
  sibling : Bintree α

/-- The steps from a hole up to the root. -/
abbrev Context (α : Type) := List (Frame α)

def Frame.fill (f : Frame α) (t : Bintree α) : Bintree α :=
  .branch f.dir f.color t f.label f.sibling

def plug : Context α → Bintree α → Bintree α
  | [], t => t
  | f :: p, t => plug p (f.fill t)

/-- The labels left of the hole. -/
def before : Context α → List α
  | [] => []
  | f :: p =>
    match f.dir with
    | .left => before p
    | .right => before p ++ f.sibling.labels ++ [f.label]

/-- The labels right of the hole. -/
def after : Context α → List α
  | [] => []
  | f :: p =>
    match f.dir with
    | .left => f.label :: f.sibling.labels ++ after p
    | .right => after p

theorem plug_labels (p : Context α) (t : Bintree α) :
    (plug p t).labels = before p ++ t.labels ++ after p := by
  induction p generalizing t with
  | nil => simp [plug, before, after]
  | cons f p ih =>
    obtain ⟨d, c, a, s⟩ := f
    cases d <;> simp [plug, before, after, ih, Frame.fill, Bintree.branch, Bintree.labels]

theorem plug_labels_congr {p : Context α} {t t' : Bintree α} (same : t.labels = t'.labels) :
    (plug p t).labels = (plug p t').labels := by
  rw [plug_labels, plug_labels, same]

/-- Every label of a tree is at the root of some subtree. -/
theorem exists_plug {t : Bintree α} {a : α} (member : a ∈ t.labels) :
    ∃ p c l r, t = plug p (.node c l a r) := by
  suffices gen : ∀ q, ∃ p c l r, plug q t = plug p (.node c l a r) from gen []
  induction t with
  | nil => cases member
  | node c l b r ihl ihr =>
    intro q
    simp only [Bintree.labels, List.mem_append, List.mem_cons] at member
    rcases member with inLeft | rfl | inRight
    · exact ihl inLeft (⟨.left, c, b, r⟩ :: q)
    · exact ⟨q, c, l, r, rfl⟩
    · exact ihr inRight (⟨.right, c, b, l⟩ :: q)

/-- The hole is below a red node. -/
def RedTop : Context α → Prop
  | [] => False
  | f :: _ => f.color = .red

/-- The context accepts a tree of black height `n`; a red root is accepted unless the hole is
below a red node. -/
def Fits : Context α → Nat → Prop
  | [], _ => True
  | f :: p, n =>
    BlackBalanced f.sibling n ∧
      match f.color with
      | .black => Fits p (n + 1)
      | .red => f.sibling.color = .black ∧ p ≠ [] ∧ ¬ RedTop p ∧ Fits p n

theorem BlackBalanced.plug {p : Context α} {t : Bintree α} {n : Nat} (bal : BlackBalanced t n)
    (fits : Fits p n) (top : t.color = .black ∨ ¬ RedTop p) :
    ∃ m, BlackBalanced (plug p t) m ∧ (p ≠ [] → (ColorTree.plug p t).color = .black) := by
  induction p generalizing t n with
  | nil => exact ⟨n, bal, fun nonempty => absurd rfl nonempty⟩
  | cons f p ih =>
    obtain ⟨d, c, a, s⟩ := f
    cases c with
    | black =>
      obtain ⟨sib, rest⟩ := fits
      obtain ⟨m, whole, root⟩ := ih (balanced_black bal sib) rest (.inl (by simp))
      refine ⟨m, whole, fun _ => ?_⟩
      cases p with
      | nil => exact Bintree.branch_color d .black t s a
      | cons _ _ => exact root (by simp)
    | red =>
      obtain ⟨sib, sibBlack, nonempty, notRed, rest⟩ := fits
      have black : t.color = .black := top.resolve_right (by simp [RedTop])
      obtain ⟨m, whole, root⟩ := ih (balanced_red bal sib black sibBlack) rest (.inr notRed)
      exact ⟨m, whole, fun _ => root nonempty⟩

theorem BlackBalanced.unplug {p : Context α} {t : Bintree α} {m : Nat}
    (bal : BlackBalanced (ColorTree.plug p t) m) (root : (ColorTree.plug p t).color = .black) :
    ∃ n, BlackBalanced t n ∧ Fits p n ∧ (t.color = .black ∨ p ≠ [] ∧ ¬ RedTop p) := by
  induction p generalizing t with
  | nil => exact ⟨m, bal, trivial, .inl root⟩
  | cons f p ih =>
    obtain ⟨n, filled, fits, top⟩ := ih bal root
    obtain ⟨d, c, a, s⟩ := f
    cases c with
    | black =>
      obtain ⟨k, rfl, inner, sib⟩ := filled.of_black
      exact ⟨k, inner, ⟨sib, fits⟩, .inr ⟨by simp, by simp [RedTop]⟩⟩
    | red =>
      obtain ⟨inner, sib, black, sibBlack⟩ := filled.of_red
      have outer : p ≠ [] ∧ ¬ RedTop p := top.resolve_left (by simp [Frame.fill])
      exact ⟨n, inner, ⟨sib, sibBlack, outer.1, outer.2, fits⟩, .inl black⟩

/-! ## One black node short -/

/-- `t` lacks one black node against black height `n + 1`; a red root lacks it until it is
blackened. -/
def Short (t : Bintree α) (n : Nat) : Prop :=
  (t.color = .black → BlackBalanced t n) ∧ (t.color = .red → BlackBalanced t.blacken (n + 1))

section Short

variable {d : Dir} {c : Color} {f w : α} {t near far : Bintree α} {p q : Context α} {n : Nat}

theorem BlackBalanced.short (bal : BlackBalanced t n) : Short t n :=
  ⟨fun _ => bal, fun red => bal.blacken_red red⟩

/-- Blackening the root of the short subtree repairs the whole, at the top or below a red root. -/
theorem Short.finish (short : Short t n) (fits : Fits p (n + 1)) (stop : t.color = .red ∨ p = []) :
    ∃ m, BlackBalanced (plug p t.blacken) m ∧ (plug p t.blacken).color = .black := by
  cases p with
  | nil =>
    cases color : t.color with
    | red => exact ⟨_, short.2 color, by simp [plug]⟩
    | black => exact ⟨n, by rw [Bintree.blacken_of_black color]; exact short.1 color, by simp [plug]⟩
  | cons g p =>
    have red : t.color = .red := stop.resolve_right (by simp)
    obtain ⟨m, bal, root⟩ := (short.2 red).plug fits (.inl (by simp))
    exact ⟨m, bal, root (by simp)⟩

/-- Reddening the sibling moves the shortage one frame up. -/
theorem Short.up (bal : BlackBalanced t n)
    (fits : Fits (⟨d, c, f, .branch d .black near w far⟩ :: q) (n + 1))
    (nearBlack : near.color = .black) (farBlack : far.color = .black) :
    ∃ k, Short (.branch d c t f (.branch d .red near w far)) k ∧ Fits q (k + 1) := by
  obtain ⟨sibling, rest⟩ := fits
  obtain ⟨m, height, balNear, balFar⟩ := sibling.of_black
  obtain rfl : n = m := by omega
  have reddened : BlackBalanced (.branch d .red near w far) n :=
    balanced_red balNear balFar nearBlack farBlack
  cases c with
  | black => exact ⟨n + 1, (balanced_black bal reddened).short, rest⟩
  | red =>
    refine ⟨n, ⟨fun isBlack => ?_, fun _ => ?_⟩, rest.2.2.2⟩
    · rw [Bintree.branch_color] at isBlack
      cases isBlack
    · rw [Bintree.blacken_branch]
      exact balanced_black bal reddened

/-- A subtree of full height in place of the parent repairs the whole. -/
theorem BlackBalanced.top {middle outer sibling : Bintree α} {a : α} (bal : BlackBalanced t n)
    (fits : Fits (⟨d, c, f, sibling⟩ :: q) (n + 1)) (balMiddle : BlackBalanced middle n)
    (balOuter : BlackBalanced outer (n + 1)) (outerBlack : outer.color = .black) :
    ∃ m, BlackBalanced (ColorTree.plug q (.branch d c (.branch d .black t f middle) a outer)) m ∧
      (ColorTree.plug q (.branch d c (.branch d .black t f middle) a outer)).color = .black := by
  have inner : BlackBalanced (.branch d .black t f middle) (n + 1) := balanced_black bal balMiddle
  cases c with
  | black =>
    obtain ⟨m, whole, root⟩ :=
      (balanced_black (d := d) (a := a) inner balOuter).plug fits.2 (.inl (by simp))
    refine ⟨m, whole, ?_⟩
    cases q with
    | nil => exact Bintree.branch_color ..
    | cons _ _ => exact root (by simp)
  | red =>
    obtain ⟨_, _, nonempty, notRed, rest⟩ := fits
    obtain ⟨m, whole, root⟩ :=
      (balanced_red (d := d) (a := a) inner balOuter (by simp) outerBlack).plug rest (.inr notRed)
    exact ⟨m, whole, root nonempty⟩

end Short

end ColorTree
