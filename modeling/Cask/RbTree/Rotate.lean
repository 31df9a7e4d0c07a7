import Cask.RbTree.Represent

/-! # Rotations and colours at a focus

`replaceChild` redirects the pointer above a subtree, and a rotation turns
`branch d _ A x (branch d _ B y C)` into `branch d _ (branch d _ A x B) y C`.  The lemmas
cover the empty middle subtree, whose sentinel is not written, and a focus at the root.
-/

namespace Cask.RbTree

open ColorTree Fuel

variable {α π : Type} [DecidableEq α] {st st' : St α π} {p : Context α}

@[simp] theorem ok_bind {ε β γ : Type} (b : β) (next : β → Except ε γ) :
    (Except.ok b >>= next) = next b :=
  rfl

@[simp] theorem pure_ok {ε β : Type} (b : β) : (pure b : Except ε β) = .ok b := rfl

/-! ## The pointer above the focus -/

/-- The state with the pointer in the hole of `p` changed to `hole`. -/
def St.relink (st : St α π) (p : Context α) (hole : Ptr α) : St α π :=
  { st with root := rootPtr p hole, node := redirect st.node p hole }

section Relink

variable {hole : Ptr α}

@[simp] theorem relink_root : (st.relink p hole).root = rootPtr p hole := rfl

@[simp] theorem relink_sentinel : (st.relink p hole).sentinel = st.sentinel := rfl

@[simp] theorem relink_payload : (st.relink p hole).payload = st.payload := rfl

theorem redirect_of_not_mem {nodes : α → Option (Rbnode α)} {a : α}
    (outside : ¬ (a ∈ before p ∨ a ∈ after p)) : redirect nodes p hole a = nodes a := by
  cases p with
  | nil => rfl
  | cons f p =>
    refine Function.update_of_ne ?_ ..
    rintro rfl
    obtain ⟨d, c, b, s⟩ := f
    cases d <;> simp [before, after] at outside

theorem relink_node_of_not_mem {a : α} (outside : ¬ (a ∈ before p ∨ a ∈ after p)) :
    (st.relink p hole).node a = st.node a := redirect_of_not_mem outside

/-- Redirecting depends only on the nodes of the context. -/
theorem redirect_congr {nodes nodes' : α → Option (Rbnode α)} {a : α} (agree : nodes' a = nodes a) :
    redirect nodes' p hole a = redirect nodes p hole a := by
  cases p with
  | nil => exact agree
  | cons f p => simp only [redirect, Function.update_apply, agree]

end Relink

/-- `replaceChild` at a focus, whichever child is compared first. -/
theorem replaceChild_focus {x : α} {t : Bintree α} (d : Dir) (y : Ptr α) (same : ptr t = .node x)
    (path : RepPath st.node p (.node x)) (root : st.root = rootPtr p (.node x))
    (parent : st.parent (.node x) = .ok (parentOf p)) (nodup : (plug p t).labels.Nodup) :
    replaceChild d st (.node x) y = .ok (st.relink p y) := by
  unfold replaceChild
  rw [parent, ok_bind]
  cases p with
  | nil => simp [parentOf, St.relink, redirect, rootPtr]
  | cons f p =>
    obtain ⟨here, _, _⟩ := path
    have notSibling : Ptr.node x ≠ ptr f.sibling := by
      intro equal
      exact (nodup_plug_cons nodup).2.2.2.1 x (ptr_eq_node same) (ptr_eq_node equal.symm)
    have linked : st.put f.label (.ofDir f.dir f.color y (ptr f.sibling) (parentOf p)) = st.relink (f :: p) y := by
      simp only [St.put, St.relink, redirect]
      rw [root]
      rfl
    simp only [parentOf, ne_eq, reduceCtorEq, not_false_eq_true, if_true]
    rw [child_node here, ok_bind]
    -- the side compared first is either the side of the hole or the side of the sibling
    rcases Dir.eq_or_other f.dir d with rfl | rfl
    · rw [ofDir_child, if_pos rfl, setChild_node here, ofDir_setChild, linked]
    · rw [ofDir_child_other, if_neg notSibling, Dir.other_other, setChild_node here,
        ofDir_setChild, linked]

/-! ## A new parent for a subtree -/

/-- The state with the parent pointer of the subtree `t` changed; nothing changes for a leaf. -/
def St.adopt (st : St α π) (t : Bintree α) (par : Ptr α) : St α π :=
  match t with
  | .nil => st
  | .node c l a r => st.put a ⟨c, ptr l, ptr r, par⟩

section Adopt

variable {t : Bintree α} {par par' : Ptr α}

@[simp] theorem adopt_root : (st.adopt t par).root = st.root := by cases t <;> rfl

@[simp] theorem adopt_sentinel : (st.adopt t par).sentinel = st.sentinel := by cases t <;> rfl

@[simp] theorem adopt_payload : (st.adopt t par).payload = st.payload := by cases t <;> rfl

theorem adopt_node_of_not_mem {a : α} (outside : a ∉ t.labels) :
    (st.adopt t par).node a = st.node a := by
  cases t with
  | nil => rfl
  | node c l b r =>
    refine put_node_ne ?_
    rintro rfl
    simp [Bintree.labels] at outside

theorem rep_adopt (rep : Rep st.node par' t) (nodup : t.labels.Nodup) :
    Rep (st.adopt t par).node par t := by
  cases t with
  | nil => trivial
  | node c l a r =>
    refine rep.reparent put_node_same fun b member => put_node_ne ?_
    rintro rfl
    simp only [Bintree.labels, List.nodup_append, List.nodup_cons] at nodup
    grind

theorem setParent_adopt (rep : Rep st.node par' t) :
    setParentUnlessNil st (ptr t) par = .ok (st.adopt t par) := by
  cases t with
  | nil => rfl
  | node c l a r =>
    rw [ptr, setParentUnlessNil, if_pos (by simp), setParent_node rep.1]
    rfl

end Adopt

/-! ## Rotation -/

theorem rotateTo_eq (d : Dir) (st : St α π) (x : Ptr α) : rotateTo d st x = rotate d st x :=
  by cases d <;> rfl

/-- The memory after a rotation at the focus `p`: the middle subtree gets the parent `x`, the
pointer above gets `y`, and `x` and `y` exchange places. -/
def St.rotated (st : St α π) (d : Dir) (p : Context α) (cx cy : Color) (near middle far : Bintree α)
    (x y : α) : St α π :=
  ((((((st.put x (.ofDir d cx (ptr near) (ptr middle) (parentOf p))).adopt middle (.node x)).put y
    (.ofDir d cy (ptr middle) (ptr far) (parentOf p))).relink p (.node y)).put y
    (.ofDir d cy (.node x) (ptr far) (parentOf p))).put x (.ofDir d cx (ptr near) (ptr middle) (.node y)))

section Rotate

variable {d : Dir} {cx cy : Color} {near middle far : Bintree α} {x y : α}

theorem rotate_ok (focus : Focus st p (.branch d cx near x (.branch d cy middle y far))) :
    rotate d st (.node x) = .ok (st.rotated d p cx cy near middle far x y) := by
  obtain ⟨path, tree, root, nodup⟩ := focus
  obtain ⟨atX, _, rest⟩ := rep_branch.mp tree
  obtain ⟨atY, repMiddle, _⟩ := rep_branch.mp rest
  obtain ⟨differ, xMiddle, yMiddle, _⟩ := rotate_distinct nodup
  have outside : ∀ a ∈ (Bintree.branch d cx near x (.branch d cy middle y far)).labels,
      ¬ (a ∈ before p ∨ a ∈ after p) := fun a member => nodup_plug nodup member
  have xOutside := outside x (by simp [Bintree.mem_labels_branch])
  have yOutside := outside y (by simp [Bintree.mem_labels_branch])
  rw [ptr_branch] at path root atX
  unfold rotate
  rw [child_node atX, ofDir_child_other, ok_bind, child_node atY, ofDir_child, ok_bind,
    setChild_node atX,
    ofDir_setChild_other, ok_bind]
  -- from here on `x` points to the middle subtree
  generalize start : st.put x (.ofDir d cx (ptr near) (ptr middle) (parentOf p)) = st₁
  have atX₁ : st₁.node x = some (.ofDir d cx (ptr near) (ptr middle) (parentOf p)) := by
    rw [← start, put_node_same]
  have atY₁ : st₁.node y = st.node y := by rw [← start, put_node_ne differ.symm]
  have repMiddle₁ : Rep st₁.node (.node y) middle := repMiddle.congr fun a member => by
    rw [← start, put_node_ne]
    rintro rfl
    exact xMiddle member
  rw [setParent_adopt repMiddle₁, ok_bind]
  have atX₂ : (st₁.adopt middle (.node x)).node x = some (.ofDir d cx (ptr near) (ptr middle) (parentOf p)) := by
    rw [adopt_node_of_not_mem xMiddle, atX₁]
  have atY₂ : (st₁.adopt middle (.node x)).node y = some (.ofDir d cy (ptr middle) (ptr far) (.node x)) := by
    rw [adopt_node_of_not_mem yMiddle, atY₁, atY]
  rw [parent_node atX₂, ofDir_parent, ok_bind, setParentUnlessNil, if_pos (by simp),
    setParent_node atY₂, ofDir_setParent, ok_bind]
  generalize second : (st₁.adopt middle (.node x)).put y (.ofDir d cy (ptr middle) (ptr far) (parentOf p)) = st₂
  have atX₃ : st₂.node x = some (.ofDir d cx (ptr near) (ptr middle) (parentOf p)) := by
    rw [← second, put_node_ne differ, atX₂]
  have path₂ : RepPath st₂.node p (.node x) := path.congr fun a member => by
    have notX : a ≠ x := by rintro rfl; exact xOutside member
    have notY : a ≠ y := by rintro rfl; exact yOutside member
    have notMiddle : a ∉ middle.labels := fun within =>
      outside a (by simp [Bintree.mem_labels_branch, within]) member
    rw [← second, put_node_ne notY, adopt_node_of_not_mem notMiddle, ← start, put_node_ne notX]
  have root₂ : st₂.root = rootPtr p (.node x) := by rw [← second, ← start]; simpa using root
  rw [replaceChild_focus d (.node y) (ptr_branch ..) path₂ root₂ (by rw [parent_node atX₃, ofDir_parent]) nodup,
    ok_bind]
  have atX₄ : (st₂.relink p (.node y)).node x = some (.ofDir d cx (ptr near) (ptr middle) (parentOf p)) := by
    rw [relink_node_of_not_mem xOutside, atX₃]
  have atY₄ : (st₂.relink p (.node y)).node y = some (.ofDir d cy (ptr middle) (ptr far) (parentOf p)) := by
    rw [relink_node_of_not_mem yOutside, ← second, put_node_same]
  rw [setChild_node atY₄, ofDir_setChild, ok_bind, setParentUnlessNil, if_pos (by simp),
    setParent_node ((put_node_ne differ).trans atX₄), ofDir_setParent, ← second,
    ← start, St.rotated]

/-- A rotation writes `x`, `y`, the root of the middle subtree and the node above. -/
theorem rotated_others {a : α} (notX : a ≠ x) (notY : a ≠ y) :
    (st.rotated d p cx cy near middle far x y).node a =
      redirect (st.adopt middle (.node x)).node p (.node y) a := by
  rw [St.rotated, put_node_ne notX, put_node_ne notY]
  refine redirect_congr ?_
  rw [put_node_ne notY]
  cases middle with
  | nil => exact put_node_ne notX
  | node c l b r => simp only [St.adopt, St.put, Function.update_apply, notX, if_false]

theorem rotated_focus (focus : Focus st p (.branch d cx near x (.branch d cy middle y far))) :
    Focus (st.rotated d p cx cy near middle far x y) p
      (.branch d cy (.branch d cx near x middle) y far) := by
  obtain ⟨_, tree, _, nodup⟩ := id focus
  obtain ⟨_, repNear, rest⟩ := rep_branch.mp tree
  obtain ⟨_, repMiddle, repFar⟩ := rep_branch.mp rest
  obtain ⟨differ, xMiddle, yMiddle, xNear, yNear, xFar, yFar, nodupMiddle, nearMiddle, farMiddle⟩ :=
    rotate_distinct nodup
  have outside : ∀ a ∈ (Bintree.branch d cx near x (.branch d cy middle y far)).labels,
      ¬ (a ∈ before p ∨ a ∈ after p) := fun a member => nodup_plug nodup member
  simp only [Bintree.mem_labels_branch] at outside
  -- below the two nodes only the middle subtree gets a new parent
  have inside : ∀ a, a ≠ x → a ≠ y → a ∈ near.labels ∨ a ∈ middle.labels ∨ a ∈ far.labels →
      (st.rotated d p cx cy near middle far x y).node a = (st.adopt middle (.node x)).node a := by
    intro a notX notY member
    rw [rotated_others notX notY, redirect_of_not_mem (outside a (by tauto))]
  have apart : ∀ {t : Bintree α} {b : α}, b ∉ t.labels → ∀ a ∈ t.labels, a ≠ b := by
    rintro t b absent a member rfl
    exact absent member
  refine focus.replace (rep_branch.mpr ⟨?_, rep_branch.mpr ⟨?_, ?_, ?_⟩, ?_⟩) ?_ ?_ ?_
  · rw [St.rotated, put_node_ne differ.symm, put_node_same, ptr_branch]
  · rw [St.rotated, put_node_same]
  · refine repNear.congr fun a member => ?_
    rw [inside a (apart xNear a member) (apart yNear a member) (.inl member),
      adopt_node_of_not_mem (nearMiddle a member)]
  · have adopted : Rep (st.adopt middle (.node x)).node (.node x) middle :=
      rep_adopt repMiddle nodupMiddle
    exact adopted.congr fun a member =>
      inside a (apart xMiddle a member) (apart yMiddle a member) (.inr (.inl member))
  · refine repFar.congr fun a member => ?_
    rw [inside a (apart xFar a member) (apart yFar a member) (.inr (.inr member)),
      adopt_node_of_not_mem (farMiddle a member)]
  · rw [ptr_branch]
    rfl
  · rw [plug_labels, Bintree.labels_rotate d cy cx cx cy, ← plug_labels]
    exact nodup
  · intro a member
    -- above them only the link to the tree changes
    have notX : a ≠ x := by rintro rfl; exact outside a (by simp) member
    have notY : a ≠ y := by rintro rfl; exact outside a (by simp) member
    rw [rotated_others notX notY, ptr_branch]
    exact redirect_congr (adopt_node_of_not_mem fun within => outside a (by tauto) member)

/-- A rotation at a focus succeeds; it changes only nodes of the tree. -/
theorem rotateTo_focus (focus : Focus st p (.branch d cx near x (.branch d cy middle y far))) :
    ∃ st', rotateTo d st (.node x) = .ok st' ∧
      Reshape st (plug p (.branch d cx near x (.branch d cy middle y far))) st'
        (plug p (.branch d cy (.branch d cx near x middle) y far)) := by
  refine ⟨_, (rotateTo_eq d st _).trans (rotate_ok focus), focus_plug.mp (rotated_focus focus),
    plug_labels_congr (Bintree.labels_rotate ..), by simp [St.rotated], by simp [St.rotated],
    fun a absent => ?_⟩
  simp only [plug_labels, List.mem_append, Bintree.mem_labels_branch, not_or] at absent
  rw [rotated_others absent.1.2.1 absent.1.2.2.2.1, redirect_of_not_mem (by tauto),
    adopt_node_of_not_mem absent.1.2.2.2.2.1]

/-- The mirror image of `rotateTo_focus`. -/
theorem rotateTo_other_focus (focus : Focus st p (.branch d cx (.branch d cy far y middle) x near)) :
    ∃ st', rotateTo d.other st (.node x) = .ok st' ∧
      Reshape st (plug p (.branch d cx (.branch d cy far y middle) x near)) st'
        (plug p (.branch d cy far y (.branch d cx middle x near))) := by
  have turned := Bintree.branch_other d cx near (.branch d cy far y middle) x
  rw [← Bintree.branch_other d cy middle far y] at turned
  rw [← Bintree.branch_other d cy middle far y, ← turned] at focus
  obtain ⟨st', run, change⟩ := rotateTo_focus focus
  rw [turned, Bintree.branch_other d cy, Bintree.branch_other d cx,
    Bintree.branch_other d cy] at change
  exact ⟨st', run, change⟩

end Rotate

/-! ## Colours -/

section Colour

variable {d : Dir} {c : Color} {near far t : Bintree α} {a : α}

/-- Recolouring the node at the focus. -/
theorem setColor_focus (c' : Color) (focus : Focus st p (.branch d c near a far)) :
    ∃ st', st.setColor (.node a) c' = .ok st' ∧
      Reshape st (plug p (.branch d c near a far)) st' (plug p (.branch d c' near a far)) := by
  obtain ⟨path, tree, root, nodup⟩ := id focus
  obtain ⟨here, repNear, repFar⟩ := rep_branch.mp tree
  have apart : a ∉ near.labels ∧ a ∉ far.labels := by
    have inner := nodup_tree nodup
    cases d <;> simp only [Bintree.branch, Bintree.labels, List.nodup_append, List.nodup_cons, List.mem_cons] at inner <;>
      grind
  -- every other node is as it was
  have same : ∀ b ≠ a, (st.put a (.ofDir d c' (ptr near) (ptr far) (parentOf p))).node b = st.node b :=
    fun b differ => put_node_ne differ
  have labels : (plug p (.branch d c' near a far)).labels = (plug p (.branch d c near a far)).labels :=
    plug_labels_congr (Bintree.labels_recolor d c' c a rfl rfl)
  refine ⟨st.put a (.ofDir d c' (ptr near) (ptr far) (parentOf p)), ?_,
    focus_plug.mp ⟨?_, ?_, ?_, labels ▸ nodup⟩,
    labels, rfl, rfl, fun b absent => same b ?_⟩
  · rw [setColor_node here, ofDir_setColor]
  · rw [ptr_branch] at path ⊢
    refine path.congr fun b member => same b ?_
    rintro rfl
    exact nodup_plug nodup (by simp [Bintree.mem_labels_branch]) member
  · refine rep_branch.mpr ⟨put_node_same, repNear.congr fun b member => same b ?_,
      repFar.congr fun b member => same b ?_⟩
    · rintro rfl
      exact apart.1 member
    · rintro rfl
      exact apart.2 member
  · rw [ptr_branch] at root ⊢
    exact root
  · rintro rfl
    simp [plug_labels, Bintree.mem_labels_branch] at absent

/-- Blackening the subtree at the focus; for a leaf this writes the sentinel's own colour. -/
theorem blacken_focus (focus : Focus st p t) (sentinel : st.sentinel.color = .black) :
    ∃ st', st.setColor (ptr t) .black = .ok st' ∧ Reshape st (plug p t) st' (plug p t.blacken) := by
  cases t with
  | nil =>
    refine ⟨st, ?_, .refl focus⟩
    show Except.ok { st with sentinel := { st.sentinel with color := .black } } = Except.ok st
    rw [← sentinel]
  | node c l b r => exact setColor_focus (d := .left) .black focus

end Colour

end Cask.RbTree
