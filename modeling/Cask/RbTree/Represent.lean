import Cask.RbTree.Model

/-! # Trees in the heap

`Rep` relates a subtree of linked nodes to a coloured tree whose labels are the addresses,
and `RepPath` relates the nodes above a hole to a context.  `Focus st p t` says that the
whole structure reachable from `t->root` is `plug p t`, seen from the subtree `t`.  Parent
pointers are part of the relation: the parent of the root is `NULL`.

Operations are verified at a focus.  `Focus.replace` is the frame rule: to change the
subtree at the focus it is enough to establish the new subtree and to redirect the one
pointer that leads to it.
-/

namespace Cask.RbTree

open ColorTree Fuel

variable {α π : Type}

/-! ## Nodes by side -/

/-- A node from its child on side `d` and its child on the other side. -/
def Rbnode.ofDir (d : Dir) (c : Color) (near far par : Ptr α) : Rbnode α :=
  match d with
  | .left => ⟨c, near, far, par⟩
  | .right => ⟨c, far, near, par⟩

section OfDir

variable (d : Dir) (c : Color) (near far par q : Ptr α)

@[simp] theorem ofDir_color : (Rbnode.ofDir d c near far par).color = c := by cases d <;> rfl

@[simp] theorem ofDir_parent : (Rbnode.ofDir d c near far par).parent = par := by cases d <;> rfl

@[simp] theorem ofDir_child : (Rbnode.ofDir d c near far par).child d = near := by cases d <;> rfl

@[simp] theorem ofDir_child_other : (Rbnode.ofDir d c near far par).child d.other = far :=
  by cases d <;> rfl

@[simp] theorem ofDir_setChild :
    (Rbnode.ofDir d c near far par).setChild d q = Rbnode.ofDir d c q far par := by cases d <;> rfl

@[simp] theorem ofDir_setChild_other :
    (Rbnode.ofDir d c near far par).setChild d.other q = Rbnode.ofDir d c near q par :=
  by cases d <;> rfl

@[simp] theorem ofDir_setParent :
    { Rbnode.ofDir d c near far par with parent := q } = Rbnode.ofDir d c near far q :=
  by cases d <;> rfl

@[simp] theorem ofDir_setColor (c' : Color) :
    { Rbnode.ofDir d c near far par with color := c' } = Rbnode.ofDir d c' near far par :=
  by cases d <;> rfl

end OfDir

/-! ## Access to an allocated node -/

section Access

variable {st : St α π} {a : α} {n : Rbnode α}

theorem child_node (found : st.node a = some n) (d : Dir) :
    st.child d (.node a) = .ok (n.child d) := by
  simp only [St.child, St.read, found]
  rfl

theorem parent_node (found : st.node a = some n) : st.parent (.node a) = .ok n.parent := by
  simp only [St.parent, St.read, found]
  rfl

theorem color_node (found : st.node a = some n) : st.color (.node a) = .ok n.color := by
  simp only [St.color, St.read, found]
  rfl

variable [DecidableEq α]

/-- Memory with the node at `a` replaced. -/
def St.put (st : St α π) (a : α) (n : Rbnode α) : St α π :=
  { st with node := Function.update st.node a (some n) }

@[simp] theorem put_root : (st.put a n).root = st.root := rfl

@[simp] theorem put_sentinel : (st.put a n).sentinel = st.sentinel := rfl

@[simp] theorem put_payload : (st.put a n).payload = st.payload := rfl

@[simp] theorem put_node_same : (st.put a n).node a = some n := Function.update_self ..

theorem put_node_ne {b : α} (distinct : b ≠ a) : (st.put a n).node b = st.node b :=
  Function.update_of_ne distinct ..

theorem setChild_node (found : st.node a = some n) (d : Dir) (q : Ptr α) :
    st.setChild d (.node a) q = .ok (st.put a (n.setChild d q)) := by
  simp only [St.setChild, St.read, found]
  rfl

theorem setParent_node (found : st.node a = some n) (q : Ptr α) :
    st.setParent (.node a) q = .ok (st.put a { n with parent := q }) := by
  simp only [St.setParent, St.read, found]
  rfl

theorem setColor_node (found : st.node a = some n) (c : Color) :
    st.setColor (.node a) c = .ok (st.put a { n with color := c }) := by
  simp only [St.setColor, St.read, found]
  rfl

end Access

/-! ## Representation -/

/-- The pointer to a subtree. -/
def ptr : Bintree α → Ptr α
  | .nil => .rbnil
  | .node _ _ a _ => .node a

/-- The parent pointer of the subtree in the hole of a context. -/
def parentOf : Context α → Ptr α
  | [] => .null
  | f :: _ => .node f.label

/-- The root pointer of a structure with the pointer `hole` in the hole of a context. -/
def rootPtr : Context α → Ptr α → Ptr α
  | [], hole => hole
  | f :: p, _ => rootPtr p (.node f.label)

/-- The nodes below `par` are linked as `t` says. -/
def Rep (nodes : α → Option (Rbnode α)) : Ptr α → Bintree α → Prop
  | _, .nil => True
  | par, .node c l a r =>
    nodes a = some ⟨c, ptr l, ptr r, par⟩ ∧ Rep nodes (.node a) l ∧ Rep nodes (.node a) r

/-- The nodes above the pointer `hole` are linked as `p` says. -/
def RepPath (nodes : α → Option (Rbnode α)) : Context α → Ptr α → Prop
  | [], _ => True
  | f :: p, hole =>
    nodes f.label = some (.ofDir f.dir f.color hole (ptr f.sibling) (parentOf p)) ∧
      Rep nodes (.node f.label) f.sibling ∧ RepPath nodes p (.node f.label)

/-- The whole structure is `plug p t`, seen from `t`. -/
structure Focus (st : St α π) (p : Context α) (t : Bintree α) : Prop where
  path : RepPath st.node p (ptr t)
  tree : Rep st.node (parentOf p) t
  root : st.root = rootPtr p (ptr t)
  nodup : (plug p t).labels.Nodup

section Rep

variable {nodes nodes' : α → Option (Rbnode α)} {par hole : Ptr α} {t : Bintree α} {p : Context α} {f : Frame α}

@[simp] theorem ptr_branch (d : Dir) (c : Color) (near far : Bintree α) (a : α) :
    ptr (.branch d c near a far) = .node a := by cases d <;> rfl

@[simp] theorem ptr_fill (f : Frame α) (t : Bintree α) : ptr (f.fill t) = .node f.label :=
  ptr_branch ..

theorem ptr_eq_rbnil {t : Bintree α} : ptr t = .rbnil ↔ t = .nil := by cases t <;> simp [ptr]

theorem ptr_eq_node {t : Bintree α} {a : α} (same : ptr t = .node a) : a ∈ t.labels := by
  cases t with
  | nil => cases same
  | node c l b r =>
    cases same
    simp [Bintree.labels]

theorem rep_branch {d : Dir} {c : Color} {near far : Bintree α} {a : α} :
    Rep nodes par (.branch d c near a far) ↔
      nodes a = some (.ofDir d c (ptr near) (ptr far) par) ∧ Rep nodes (.node a) near ∧
      Rep nodes (.node a) far := by
  cases d with
  | left => rfl
  | right =>
    simp only [Bintree.branch, Rep, Rbnode.ofDir]
    tauto

theorem Rep.congr (rep : Rep nodes par t) (agree : ∀ a ∈ t.labels, nodes' a = nodes a) :
    Rep nodes' par t := by
  induction t generalizing par with
  | nil => trivial
  | node c l a r ihl ihr =>
    obtain ⟨here, left, right⟩ := rep
    simp only [Bintree.labels, List.mem_append, List.mem_cons] at agree
    refine ⟨?_, ihl left fun b member => agree b (.inl member),
      ihr right fun b member => agree b (.inr (.inr member))⟩
    rw [agree a (.inr (.inl rfl)), here]

/-- Every node of a represented tree is allocated. -/
theorem Rep.allocated (rep : Rep nodes par t) {a : α} (member : a ∈ t.labels) :
    ∃ n, nodes a = some n := by
  induction t generalizing par with
  | nil => cases member
  | node c l b r ihl ihr =>
    obtain ⟨here, left, right⟩ := rep
    simp only [Bintree.labels, List.mem_append, List.mem_cons] at member
    rcases member with inLeft | rfl | inRight
    · exact ihl left inLeft
    · exact ⟨_, here⟩
    · exact ihr right inRight

/-- Changing the parent pointer of the root of a subtree. -/
theorem Rep.reparent {par' : Ptr α} {c : Color} {l r : Bintree α} {a : α}
    (rep : Rep nodes par (.node c l a r)) (here : nodes' a = some ⟨c, ptr l, ptr r, par'⟩)
    (agree : ∀ b ∈ l.labels ++ r.labels, nodes' b = nodes b) : Rep nodes' par' (.node c l a r) := by
  obtain ⟨_, left, right⟩ := rep
  exact ⟨here, left.congr fun b member => agree b (List.mem_append_left _ member),
    right.congr fun b member => agree b (List.mem_append_right _ member)⟩

theorem RepPath.congr (rep : RepPath nodes p hole)
    (agree : ∀ a, a ∈ before p ∨ a ∈ after p → nodes' a = nodes a) : RepPath nodes' p hole := by
  induction p generalizing hole with
  | nil => trivial
  | cons f p ih =>
    obtain ⟨d, c, b, s⟩ := f
    obtain ⟨here, sibling, rest⟩ := rep
    have label : nodes' b = nodes b := agree b (by cases d <;> simp [before, after])
    refine ⟨by rw [label]; exact here, sibling.congr fun a member => ?_, ih rest fun a member => ?_⟩
    · exact agree a (by cases d <;> simp [before, after, member])
    · apply agree a
      cases d <;> simp only [before, after, List.mem_append, List.mem_cons] <;> tauto

theorem nodup_plug_cons {t : Bintree α} (nodup : (plug (f :: p) t).labels.Nodup) :
    f.label ∉ t.labels ∧ f.label ∉ f.sibling.labels ∧ ¬ (f.label ∈ before p ∨ f.label ∈ after p) ∧
      (∀ a ∈ t.labels, a ∉ f.sibling.labels) ∧
      ∀ a, a ∈ f.sibling.labels → ¬ (a ∈ before p ∨ a ∈ after p) := by
  rw [plug_labels] at nodup
  obtain ⟨d, c, b, s⟩ := f
  cases d <;> simp only [before, after, List.nodup_append, List.nodup_cons, List.mem_append, List.mem_cons,
    List.cons_append, List.append_assoc, List.not_mem_nil] at nodup ⊢ <;> grind

theorem nodup_plug {t : Bintree α} (nodup : (plug p t).labels.Nodup) {a : α} (member : a ∈ t.labels) :
    ¬ (a ∈ before p ∨ a ∈ after p) := by
  rw [plug_labels] at nodup
  simp only [List.nodup_append, List.mem_append] at nodup
  grind

theorem nodup_tree {t : Bintree α} (nodup : (plug p t).labels.Nodup) : t.labels.Nodup := by
  rw [plug_labels] at nodup
  exact (List.nodup_append.mp (List.nodup_append.mp nodup).1).2.1

/-- The addresses a rotation tells apart. -/
theorem rotate_distinct {d : Dir} {cx cy : Color} {near middle far : Bintree α} {x y : α}
    (nodup : (plug p (.branch d cx near x (.branch d cy middle y far))).labels.Nodup) :
    x ≠ y ∧ x ∉ middle.labels ∧ y ∉ middle.labels ∧ x ∉ near.labels ∧ y ∉ near.labels ∧
      x ∉ far.labels ∧
      y ∉ far.labels ∧ middle.labels.Nodup ∧ (∀ a ∈ near.labels, a ∉ middle.labels) ∧
      ∀ a ∈ far.labels, a ∉ middle.labels := by
  have inner := nodup_tree nodup
  cases d <;> simp only [Bintree.branch, Bintree.labels, List.nodup_append, List.nodup_cons, List.mem_append,
    List.mem_cons] at inner <;> grind

end Rep

/-! ## Moving the focus -/

section Moving

variable {st : St α π} {p : Context α} {t : Bintree α} {f : Frame α}

theorem focus_cons : Focus st (f :: p) t ↔ Focus st p (f.fill t) := by
  constructor
  · rintro ⟨⟨here, sibling, rest⟩, tree, root, nodup⟩
    refine ⟨by rwa [ptr_fill], ?_, by rwa [ptr_fill], nodup⟩
    exact rep_branch.mpr ⟨here, tree, sibling⟩
  · rintro ⟨path, tree, root, nodup⟩
    obtain ⟨here, inner, sibling⟩ := rep_branch.mp tree
    rw [ptr_fill] at path root
    exact ⟨⟨here, sibling, path⟩, inner, root, nodup⟩

theorem focus_plug : Focus st p t ↔ Focus st [] (plug p t) := by
  induction p generalizing t with
  | nil => rfl
  | cons f p ih => rw [focus_cons, ih, plug]

theorem color_ptr {par : Ptr α} (rep : Rep st.node par t) (sentinel : st.sentinel.color = .black) :
    st.color (ptr t) = .ok t.color := by
  cases t with
  | nil =>
    rw [Bintree.color, ← sentinel]
    rfl
  | node c l b r => exact color_node rep.1

theorem parent_ptr (focus : Focus st p t) (home : t = .nil → st.sentinel.parent = parentOf p) :
    st.parent (ptr t) = .ok (parentOf p) := by
  cases t with
  | nil =>
    rw [← home rfl]
    rfl
  | node c l b r => exact parent_node focus.tree.1

/-- The root pointer of a non-empty context is one of its nodes. -/
theorem rootPtr_mem (f : Frame α) (p : Context α) (hole : Ptr α) :
    ∃ a, rootPtr (f :: p) hole = .node a ∧ (a ∈ before (f :: p) ∨ a ∈ after (f :: p)) := by
  induction p generalizing f hole with
  | nil =>
    obtain ⟨d, c, b, s⟩ := f
    exact ⟨b, rfl, by cases d <;> simp [before, after]⟩
  | cons f' p ih =>
    obtain ⟨a, same, member⟩ := ih f' (.node f.label)
    refine ⟨a, same, ?_⟩
    obtain ⟨d, c, b, s⟩ := f
    cases d <;> simp only [before, after, List.mem_append, List.mem_cons] at member ⊢ <;> tauto

theorem Focus.ne_root (focus : Focus st (f :: p) t) : ptr t ≠ st.root := by
  obtain ⟨a, same, member⟩ := rootPtr_mem f p (ptr t)
  rw [focus.root, same]
  intro equal
  exact nodup_plug focus.nodup (ptr_eq_node equal) member

theorem ptr_ne_sibling (nodup : (plug (f :: p) t).labels.Nodup)
    (someNode : t ≠ .nil ∨ f.sibling ≠ .nil) : ptr t ≠ ptr f.sibling := by
  intro same
  cases shape : t with
  | nil =>
    have leaf : f.sibling = .nil := ptr_eq_rbnil.mp (by rw [← same, shape]; rfl)
    exact someNode.elim (fun h => h shape) (fun h => h leaf)
  | node c l a r =>
    have member : a ∈ t.labels := by simp [shape, Bintree.labels]
    exact (nodup_plug_cons nodup).2.2.2.1 a member (ptr_eq_node (by rw [← same, shape]; rfl))

end Moving

/-! ## The frame rule -/

section Frame

variable [DecidableEq α] {st st' : St α π} {p : Context α} {t t' : Bintree α} {f : Frame α}

/-- The test both fix-up loops make to find the side of the subtree at the focus. -/
theorem Focus.side (focus : Focus st (f :: p) t) (someNode : t ≠ .nil ∨ f.sibling ≠ .nil) :
    (if ptr t = (Rbnode.ofDir f.dir f.color (ptr t) (ptr f.sibling)
      (parentOf p)).child .left then Dir.left
      else Dir.right) = f.dir := by
  have differ := ptr_ne_sibling focus.nodup someNode
  obtain ⟨d, c, a, s⟩ := f
  cases d with
  | left => exact if_pos rfl
  | right => exact if_neg differ

/-- The nodes with the pointer in the hole of `p` changed to `hole`. -/
def redirect (nodes : α → Option (Rbnode α)) (p : Context α) (hole : Ptr α) :
    α → Option (Rbnode α) :=
  match p with
  | [] => nodes
  | f :: p => Function.update nodes f.label (some (.ofDir f.dir f.color hole (ptr f.sibling) (parentOf p)))

theorem RepPath.redirect {nodes : α → Option (Rbnode α)} {hole : Ptr α}
    (rep : RepPath nodes p (ptr t)) (nodup : (plug p t).labels.Nodup) :
    RepPath (RbTree.redirect nodes p hole) p hole := by
  cases p with
  | nil => trivial
  | cons f p =>
    obtain ⟨_, sibling, rest⟩ := rep
    obtain ⟨_, notSibling, notPath, _, _⟩ := nodup_plug_cons nodup
    refine ⟨Function.update_self .., sibling.congr fun a member => ?_,
      rest.congr fun a member => ?_⟩
    · exact Function.update_of_ne (by rintro rfl; exact notSibling member) ..
    · exact Function.update_of_ne (by rintro rfl; exact notPath member) ..

/-- Replace the subtree at the focus: establish the new one and redirect the pointer to it. -/
theorem Focus.replace (focus : Focus st p t) (rep : Rep st'.node (parentOf p) t')
    (root : st'.root = rootPtr p (ptr t')) (nodup : (plug p t').labels.Nodup)
    (outside : ∀ a, a ∈ before p ∨ a ∈ after p → st'.node a = redirect st.node p (ptr t') a) :
    Focus st' p t' :=
  ⟨(focus.path.redirect focus.nodup).congr outside, rep, root, nodup⟩

end Frame

/-- Nothing but the nodes `live` has changed. -/
structure Keeps (live : List α) (st st' : St α π) : Prop where
  sentinel : st'.sentinel = st.sentinel
  payload : st'.payload = st.payload
  frame : ∀ a, a ∉ live → st'.node a = st.node a

section Keeps

variable {live live' : List α} {st st' st'' : St α π}

theorem Keeps.refl : Keeps live st st := ⟨rfl, rfl, fun _ _ => rfl⟩

theorem Keeps.trans (first : Keeps live st st') (second : Keeps live' st' st'')
    (same : live' = live) : Keeps live st st'' :=
  ⟨second.sentinel.trans first.sentinel, second.payload.trans first.payload,
    fun a absent => (second.frame a (same ▸ absent)).trans (first.frame a absent)⟩

end Keeps

/-- `st'` links the same nodes in the same order as `st`, as the tree `t'`. -/
structure Reshape (st : St α π) (t : Bintree α) (st' : St α π) (t' : Bintree α) : Prop where
  focus : Focus st' [] t'
  labels : t'.labels = t.labels
  keeps : Keeps t.labels st st'

section Reshape

variable {st st' st'' : St α π} {p : Context α} {t t' t'' : Bintree α}

theorem Reshape.refl (focus : Focus st p t) : Reshape st (plug p t) st (plug p t) :=
  ⟨focus_plug.mp focus, rfl, .refl⟩

theorem Reshape.trans (first : Reshape st t st' t') (second : Reshape st' t' st'' t'') :
    Reshape st t st'' t'' :=
  ⟨second.focus, second.labels.trans first.labels, first.keeps.trans second.keeps first.labels⟩

/-- The result of a change can be seen from every subtree of the new tree. -/
theorem Reshape.at (change : Reshape st t st' t') (same : t' = plug p t'') : Focus st' p t'' :=
  focus_plug.mpr (same ▸ change.focus)

theorem Reshape.sentinel (change : Reshape st t st' t') {c : Color} (color : st.sentinel.color = c) :
    st'.sentinel.color = c := by
  rw [change.keeps.sentinel, color]

end Reshape

end Cask.RbTree
