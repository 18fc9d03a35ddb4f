import SchemaLang.Proofs.Grammar.Forest

/-!
# What the operations do below a script

One lemma for each operation that reading uses: where the operation applies, it builds below the
script and keeps the invariant, with the nodes that still wait. A node gets its parent while it
waits, and the node that owns it is made, or changed, after that; where an operation does the two in
the other order, the order does not matter. So the operations are made of these steps, and only they
look at the invariant itself.

* `Forest.leaf`, `Forest.wrap`, `Forest.join`: a new node, with the nodes that it owns.
* `Forest.adopt`: a node that waits gets a parent.
* `Forest.insert`, `Forest.insertTop`: a node is entered among the parts of its parent.
* `Forest.carry`: an attribute is put on a node.
-/

namespace SchemaLang.Arena

variable {a b : Arena} {n m p s x : Nat} {served : NodeId → Prop} {loose : List NodeId}

/-! ## The order of changes -/

theorem update_comm (a : Arena) (h : m ≠ n) (f g : Node → Node) :
    (a.update m f).update n g = (a.update n g).update m f := by
  refine ext_node (by simp only [size_update]) fun k _ => ?_
  by_cases hm : k = m
  · rw [node_update_ne (fun e => h (hm ▸ e)), node_update, node_update, size_update,
      node_update_ne (fun e => h (hm ▸ e))]
  · rw [node_update_ne hm, node_update, node_update_ne hm, node_update, size_update]

theorem alloc_adopt (hx : x < a.size) (m : Nat) (name : String) (link : Option NodeId)
    (position : Position) (kind : NodeKind) :
    (a.alloc name link position kind).2.adopt m x =
      ((a.adopt m x).alloc name link position kind).2 := by
  refine ext_node (by simp only [size_adopt, size_alloc]) fun k _ => ?_
  rw [node_adopt, node_alloc, node_alloc, node_adopt, size_alloc, size_adopt]
  by_cases hk : k = a.size
  · rw [if_neg (fun e => Nat.ne_of_lt hx (e.1.symm.trans hk)), if_pos hk, if_pos hk]
  · rw [if_neg hk, if_neg hk]
    by_cases hkx : k = x
    · rw [if_pos ⟨hkx, by omega⟩, if_pos ⟨hkx, by omega⟩]
    · rw [if_neg fun e => hkx e.1, if_neg fun e => hkx e.1]

theorem parent_adopt (hx : x < a.size) (m : Nat) : ((a.adopt m x).node x).parent = some m := by
  rw [node_adopt, if_pos ⟨rfl, hx⟩]
  rfl

theorem parent_adopt_ne {y : Nat} (h : x ≠ y) (m : Nat) :
    ((a.adopt m y).node x).parent = (a.node x).parent := by
  rw [node_adopt, if_neg fun e => h e.1]

/-- A node with an attribute more. -/
def withAttr (attr : NodeId) (node : Node) : Node :=
  { node with attrs := if node.attrs.contains attr then node.attrs else node.attrs.push attr }

theorem addAttr_eq (a : Arena) (m x : Nat) :
    a.addAttr m x = (a.update m (withAttr x)).adopt m x := rfl

theorem addAttr_eq_update (a : Arena) (h : m ≠ x) :
    a.addAttr m x = (a.adopt m x).update m (withAttr x) :=
  update_comm a h (withAttr x) (Node.withParent m)

theorem mem_attrs_withAttr {node : Node} {c : NodeId} :
    c ∈ (withAttr x node).attrs ↔ c ∈ node.attrs ∨ c = x := by
  unfold withAttr
  by_cases hin : node.attrs.contains x = true
  · simp only [hin, if_true]
    refine ⟨Or.inl, ?_⟩
    rintro (hc | rfl)
    · exact hc
    · exact Array.contains_iff_mem.1 hin
  · simp only [hin, Bool.false_eq_true, if_false, Array.mem_push]

theorem mem_children_withAttr {node : Node} {c : NodeId} :
    c ∈ (withAttr x node).children ↔ c ∈ node.children ∨ c = x := by
  have hparts : (withAttr x node).kind = node.kind := rfl
  simp only [Node.children, hparts, List.mem_append, Array.mem_toList_iff, mem_attrs_withAttr]
  exact or_right_comm

namespace Forest

/-! ## Steps -/

/-- A node of the script that owns nothing. -/
theorem leaf (h : Forest p s served a loose) (name : String) (position : Position)
    (kind : NodeKind) (hfit : Fit served a kind) (hparts : kind.parts = []) :
    Makes p s a (a.alloc name (some s) position kind).2 ∧
      Forest p s served (a.alloc name (some s) position kind).2 (a.size :: loose) := by
  have h' : Forest p s served a (kind.parts ++ loose) := by
    rw [hparts]
    exact h
  exact h'.alloc name position hfit (Or.inl hparts) fun c hc => by rw [hparts] at hc; cases hc

/-- A node that waits gets a parent. -/
theorem adopt (h : Forest p s served a loose) (m : Nat) (hx : x ∈ loose) :
    Builds p s a (a.adopt m x) ∧ Forest p s served (a.adopt m x) loose := by
  have hn := h.held x hx
  exact Forest.change [] h (changed_adopt hn.lt_size) (Or.inr hn)
    ⟨rfl, rfl, .refl _, Or.inr hx, .refl _, fun c hc => (by cases hc), fun c hc => Or.inl hc,
      fun decl e => absurd e (h.script_ne hn), fun hn => h.fit x hn⟩

/-- A node that waits is entered among the parts of its parent. -/
theorem insert (h : Forest p s served a (x :: loose)) (hm : a.Own s m)
    (hx : (a.node x).parent = some m) (hl : (a.kind x).level < (a.kind m).level)
    (f : NodeKind → NodeKind) (hgrown : (a.kind m).Grown (f (a.kind m)))
    (hparts : (f (a.kind m)).parts.Perm (x :: (a.kind m).parts))
    (hfit : Fit served a (f (a.kind m))) :
    Builds p s a (a.updateKind m f) ∧ Forest p s served (a.updateKind m f) loose := by
  refine Forest.change [x] h (changed_updateKind hm.lt_size f) (Or.inr hm)
    ⟨rfl, rfl, hgrown, Or.inl rfl, (hparts.append_left _).trans List.perm_middle, ?_,
      fun c hc => Or.inl hc, fun decl e => absurd e (h.script_ne hm), fun _ => hfit⟩
  intro c hc
  rw [List.mem_singleton] at hc
  subst hc
  exact ⟨Or.inl hl, hx⟩

/-- A node that waits is entered among the parts of the script. -/
theorem insertTop {decl decl' : Script} (h : Forest p s served a (x :: loose))
    (hd : a.kind s = .script decl) (hx : (a.node x).parent = some s) (f : NodeKind → NodeKind)
    (hf : f (.script decl) = .script decl')
    (hparts : (NodeKind.script decl').parts.Perm (x :: (NodeKind.script decl).parts))
    (hfit : ScriptFit p a decl') (htypes : ∀ t ∈ decl.types.toList, t ∈ decl'.types.toList)
    (hmem : (a.kind x).level = 6 → x ∈ decl'.types.toList) :
    Builds p s a (a.updateKind s f) ∧ Forest p s served (a.updateKind s f) loose := by
  have hc := changed_kind (h.owner_lt_size (Or.inl rfl)) hd hf
  have hchildren : Node.children { a.node s with kind := .script decl' } =
      (a.node s).attrs.toList ++ (NodeKind.script decl').parts := rfl
  have hold : a.children s = (a.node s).attrs.toList ++ (NodeKind.script decl).parts := by
    rw [← hd]
    rfl
  refine Forest.change [x] h hc (Or.inl rfl)
    ⟨rfl, rfl, ?_, Or.inl rfl, ?_, ?_, fun c hc => Or.inl hc, ?_,
      fun ho => absurd rfl (h.script_ne ho)⟩
  · rw [hd]
    exact .of_shape rfl rfl nofun nofun
  · rw [hchildren, hold]
    exact (hparts.append_left _).trans List.perm_middle
  · intro c hc
    rw [List.mem_singleton] at hc
    subst hc
    refine ⟨Or.inl ?_, hx⟩
    rw [hd]
    exact h.level_lt (h.held c (List.mem_cons_self ..))
  · intro d _ hd'
    cases hd'
    refine ⟨hfit, fun t ht => htypes t (scriptTypes_eq hd ▸ ht), fun t ht hl => ?_⟩
    rw [List.mem_singleton] at ht
    subst ht
    exact hmem hl

/-- An attribute is put on a node of the script or on the script. -/
theorem carry (h : Forest p s served a (x :: loose)) (hm : a.Owner s m)
    (hcarries : (a.kind m).carries = true) (hattr : (a.attr? x).isSome) :
    Builds p s a (a.addAttr m x) ∧ Forest p s served (a.addAttr m x) loose := by
  have hx := h.held x (List.mem_cons_self ..)
  obtain ⟨decl, hd⟩ := Option.isSome_iff_exists.1 hattr
  have hlevel : (a.kind x).level = 3 := by
    rw [attr?_eq_some.1 hd]
    rfl
  have hlt := NodeKind.level_of_carries hcarries
  have hne : m ≠ x := by
    rintro rfl
    omega
  obtain ⟨h₁, h₂⟩ := h.adopt m (List.mem_cons_self ..)
  have hm' := h₁.toGrows.owner hm
  rw [addAttr_eq_update a hne]
  have hkind := kind_adopt a m x
  have hparent := parent_adopt hx.lt_size m
  generalize a.adopt m x = b at h₁ h₂ hm' hkind hparent ⊢
  have habsent : ¬ x ∈ (b.node m).attrs := fun hin =>
    h₂.apart x (List.mem_cons_self ..) m hm'
      (List.mem_append_left _ (Array.mem_toList_iff.2 hin))
  have hwith : withAttr x (b.node m) = { b.node m with attrs := (b.node m).attrs.push x } := by
    unfold withAttr
    rw [if_neg (by rwa [Array.contains_iff_mem])]
  have hscript : ∀ decl, m = s → (withAttr x (b.node m)).kind = .script decl →
      ScriptFit p b decl ∧ (∀ t ∈ b.scriptTypes s, t ∈ decl.types.toList) ∧
        ∀ t ∈ [x], (b.kind t).level = 6 → t ∈ decl.types.toList := by
    intro decl e hk
    subst e
    obtain ⟨decl', hd', hf⟩ := h₂.isScript
    change b.kind m = _ at hk
    rw [hd'] at hk
    cases hk
    refine ⟨hf, fun t ht => scriptTypes_eq hd' ▸ ht, fun t ht hl => ?_⟩
    rw [List.mem_singleton] at ht
    rw [ht, hkind, hlevel] at hl
    cases hl
  obtain ⟨h₃, h₄⟩ := Forest.change [x] h₂
    (changed_update (h₂.owner_lt_size hm') (withAttr x)) hm'
    ⟨rfl, rfl, .refl _, Or.inl rfl, by
      rw [hwith]
      unfold children Node.children
      rw [Array.toList_push, List.append_assoc]
      exact List.perm_middle, fun c hc => by
      rw [List.mem_singleton] at hc
      subst hc
      refine ⟨Or.inl ?_, hparent⟩
      rw [hkind, hkind, hlevel]
      exact hlt, fun c hc => by
      rw [hwith] at hc
      refine (Array.mem_push.1 hc).imp id fun e => ?_
      rw [e, attr?_eq_some.2 (by rw [hkind]; exact attr?_eq_some.1 hd), hkind]
      exact ⟨rfl, hcarries⟩, hscript, fun ho => h₂.fit m ho⟩
  exact ⟨h₁.trans h₃, h₄⟩

/-- A node that owns one node that waited. -/
theorem wrap (h : Forest p s served a (x :: loose)) (name : String) (position : Position)
    (kind : NodeKind) (hfit : Fit served a kind) (hparts : kind.parts = [x])
    (hk : kind.level < 6) (hl : (a.kind x).level ≤ kind.level) :
    Builds p s a ((a.alloc name (some s) position kind).2.adopt a.size x) ∧
      Forest p s served ((a.alloc name (some s) position kind).2.adopt a.size x)
        (a.size :: loose) := by
  have hx := (h.held x (List.mem_cons_self ..)).lt_size
  obtain ⟨h₁, h₂⟩ := h.adopt a.size (List.mem_cons_self ..)
  have h₂' : Forest p s served (a.adopt a.size x) (kind.parts ++ loose) := by
    rw [hparts]
    exact h₂
  obtain ⟨h₃, h₄⟩ := h₂'.alloc name position (hfit.congr h₁.toStays h₁.size_le) (Or.inr hk)
    fun c hc => by
      rw [hparts, List.mem_singleton] at hc
      rw [hc, size_adopt, kind_adopt]
      exact ⟨parent_adopt hx _, hl⟩
  rw [size_adopt] at h₄
  rw [alloc_adopt hx]
  exact ⟨h₁.trans (h₃.builds_alloc hk), h₄⟩

/-- A node that owns two nodes that waited. -/
theorem join {y : Nat} (h : Forest p s served a (x :: y :: loose)) (name : String)
    (position : Position) (kind : NodeKind) (hfit : Fit served a kind)
    (hparts : kind.parts = [x, y]) (hk : kind.level < 6) (hx : (a.kind x).level ≤ kind.level)
    (hy : (a.kind y).level ≤ kind.level) :
    Builds p s a (((a.alloc name (some s) position kind).2.adopt a.size x).adopt a.size y) ∧
      Forest p s served (((a.alloc name (some s) position kind).2.adopt a.size x).adopt a.size y)
        (a.size :: loose) := by
  have hx' := (h.held x (List.mem_cons_self ..)).lt_size
  have hy' := (h.held y (List.mem_cons_of_mem _ (List.mem_cons_self ..))).lt_size
  have hne : x ≠ y := fun e => (List.nodup_cons.1 h.distinct).1 (e ▸ List.mem_cons_self ..)
  obtain ⟨h₁, h₂⟩ := h.adopt a.size (List.mem_cons_self ..)
  obtain ⟨h₃, h₄⟩ := h₂.adopt a.size (List.mem_cons_of_mem _ (List.mem_cons_self ..))
  have h₁₃ := h₁.trans h₃
  have h₄' : Forest p s served ((a.adopt a.size x).adopt a.size y) (kind.parts ++ loose) := by
    rw [hparts]
    exact h₄
  obtain ⟨h₅, h₆⟩ := h₄'.alloc name position (hfit.congr h₁₃.toStays h₁₃.size_le) (Or.inr hk)
    fun c hc => by
      rw [hparts] at hc
      simp only [List.mem_cons, List.not_mem_nil, or_false] at hc
      rw [size_adopt, size_adopt, kind_adopt, kind_adopt]
      rcases hc with rfl | rfl
      · rw [parent_adopt_ne hne]
        exact ⟨parent_adopt hx' _, hx⟩
      · exact ⟨parent_adopt (by rwa [size_adopt]) _, hy⟩
  rw [size_adopt, size_adopt] at h₆
  rw [alloc_adopt hx', alloc_adopt (by rwa [size_adopt])]
  exact ⟨h₁₃.trans (h₅.builds_alloc hk), h₆⟩

end Forest

/-! ## Operations with a rule of uniqueness -/

/-- An operation with a rule of uniqueness changes nothing where the name is taken, and leads to `Q`
where it is free. -/
def Tries {α : Type} (a : Arena) (result : Except NodeId α × Arena) (Q : α → Arena → Prop) : Prop :=
  match result with
  | (.error _, b) => b = a
  | (.ok value, b) => Q value b

theorem Tries.and {α : Type} {result : Except NodeId α × Arena} {Q Q' : α → Arena → Prop}
    (h : Tries a result Q) (h' : Tries a result Q') :
    Tries a result fun value b => Q value b ∧ Q' value b := by
  obtain ⟨_ | value, b⟩ := result
  · exact h
  · exact ⟨h, h'⟩

theorem Tries.mono {α : Type} {result : Except NodeId α × Arena} {Q Q' : α → Arena → Prop}
    (h : Tries a result Q) (hq : ∀ value b, Q value b → Q' value b) : Tries a result Q' := by
  obtain ⟨_ | value, b⟩ := result
  · exact h
  · exact hq value b h

/-- A node has been added to an arena, under a name and of a kind. -/
structure Gained (a g : Arena) (name : String) (kind : NodeKind) : Prop extends Stays a g where
  size_le : a.size ≤ g.size
  new_kind : g.kind a.size = kind
  new_name : g.name a.size = name

namespace Forest

/-- A new node that owns nothing is put among the parts of a node of the script. -/
theorem sprout (h : Forest p s served a loose) (hm : a.Own s m) (name : String)
    (position : Position) (kind : NodeKind) (hfit : Fit served a kind) (hparts : kind.parts = [])
    (hl : kind.level < (a.kind m).level) (f : NodeKind → NodeKind)
    (hgrown : (a.kind m).Grown (f (a.kind m)))
    (hf : (f (a.kind m)).parts.Perm (a.size :: (a.kind m).parts))
    (hfit' : ∀ g : Arena, Gained a g name kind → Fit served g (f (a.kind m))) :
    Builds p s a (((a.alloc name (some s) position kind).2.adopt m a.size).updateKind m f) ∧
      Forest p s served
        (((a.alloc name (some s) position kind).2.adopt m a.size).updateKind m f) loose ∧
      (((a.alloc name (some s) position kind).2.adopt m a.size).updateKind m f).Own s a.size ∧
      kind.Grown
        ((((a.alloc name (some s) position kind).2.adopt m a.size).updateKind m f).kind a.size) ∧
      (((a.alloc name (some s) position kind).2.adopt m a.size).updateKind m f).kind m =
        f (a.kind m) := by
  have hlow : kind.level < 6 := Nat.lt_of_lt_of_le hl (Nat.le_of_lt_succ (h.level_lt hm))
  obtain ⟨hmade, h₂⟩ := h.leaf name position kind hfit hparts
  have h₁ := hmade.builds_alloc hlow
  have hid := h₂.held a.size (List.mem_cons_self ..)
  obtain ⟨h₃, h₄⟩ := h₂.adopt m (List.mem_cons_self ..)
  have h₁₃ := h₁.trans h₃
  have hm' := h₁₃.toGrows.own hm
  have hid' := h₃.toGrows.own hid
  have hkind : ((a.alloc name (some s) position kind).2.adopt m a.size).kind m = a.kind m := by
    rw [kind_adopt]
    unfold Arena.kind
    rw [node_alloc, if_neg (Nat.ne_of_lt hm.lt_size)]
  have hnew : ((a.alloc name (some s) position kind).2.adopt m a.size).kind a.size = kind := by
    rw [kind_adopt, kind_alloc_self]
  have hfit₂ := hfit' _ ⟨h₁₃.toStays, h₁₃.size_le, hnew, by rw [name_adopt, name_alloc_self]⟩
  obtain ⟨h₅, h₆⟩ := h₄.insert hm' (parent_adopt hid.lt_size m) (by rw [hkind, hnew]; exact hl) f
    (by rw [hkind]; exact hgrown) (by rw [hkind]; exact hf) (by rw [hkind]; exact hfit₂)
  refine ⟨h₁₃.trans h₅, h₆, h₅.toGrows.own hid', ?_, ?_⟩
  · have hgrown := h₅.grown a.size hid'.lt_size
    rwa [hnew] at hgrown
  · rw [← hkind]
    unfold Arena.kind
    rw [node_updateKind, if_pos ⟨rfl, hm'.lt_size⟩, Node.mapKind_kind]

/-- A new node that owns a node that waited is put among the parts of a node of the script. -/
theorem sproutOver (h : Forest p s served a (x :: loose)) (hm : a.Own s m) (name : String)
    (position : Position) (kind : NodeKind) (hfit : Fit served a kind) (hparts : kind.parts = [x])
    (hx : (a.kind x).level ≤ kind.level) (hl : kind.level < (a.kind m).level)
    (f : NodeKind → NodeKind) (hgrown : (a.kind m).Grown (f (a.kind m)))
    (hf : (f (a.kind m)).parts.Perm (a.size :: (a.kind m).parts))
    (hfit' : ∀ g : Arena, Gained a g name kind → Fit served g (f (a.kind m))) {g : Arena}
    (hg : ((a.alloc name (some s) position kind).2.adopt m a.size).adopt a.size x = g) :
    Builds p s a (g.updateKind m f) ∧ Forest p s served (g.updateKind m f) loose ∧
      (g.updateKind m f).Own s a.size ∧
      ((g.updateKind m f).kind a.size).ctorIdx = kind.ctorIdx := by
  have hx' := (h.held x (List.mem_cons_self ..)).lt_size
  have hlow : kind.level < 6 := by
    have := h.level_lt hm
    omega
  obtain ⟨h₁, h₂⟩ := h.wrap name position kind hfit hparts hlow hx
  have hid := h₂.held a.size (List.mem_cons_self ..)
  obtain ⟨h₃, h₄⟩ := h₂.adopt m (List.mem_cons_self ..)
  have h₁₃ := h₁.trans h₃
  have horder : ((a.alloc name (some s) position kind).2.adopt a.size x).adopt m a.size = g :=
    (update_comm _ (Nat.ne_of_lt hx') _ _).trans hg
  have hparent := parent_adopt hid.lt_size m
  rw [horder] at h₃ h₄ h₁₃ hparent
  have hkind : g.kind m = a.kind m := by
    rw [← hg, kind_adopt, kind_adopt]
    unfold Arena.kind
    rw [node_alloc, if_neg (Nat.ne_of_lt hm.lt_size)]
  have hnew : g.kind a.size = kind := by
    rw [← hg, kind_adopt, kind_adopt, kind_alloc_self]
  have hname : g.name a.size = name := by
    rw [← hg, name_adopt, name_adopt, name_alloc_self]
  have hm' := h₁₃.toGrows.own hm
  have hid' : g.Own s a.size := h₃.toGrows.own hid
  have hfit₂ := hfit' g ⟨h₁₃.toStays, h₁₃.size_le, hnew, hname⟩
  obtain ⟨h₅, h₆⟩ := h₄.insert hm' hparent (by rw [hkind, hnew]; exact hl) f
    (by rw [hkind]; exact hgrown) (by rw [hkind]; exact hf) (by rw [hkind]; exact hfit₂)
  refine ⟨h₁₃.trans h₅, h₆, h₅.toGrows.own hid', ?_⟩
  rw [h₅.shape hid'.lt_size, hnew]

/-- A node that waited is put among the parts of a node of the script. -/
theorem attach (h : Forest p s served a (x :: loose)) (hm : a.Own s m)
    (hl : (a.kind x).level < (a.kind m).level) (f : NodeKind → NodeKind)
    (hgrown : (a.kind m).Grown (f (a.kind m)))
    (hf : (f (a.kind m)).parts.Perm (x :: (a.kind m).parts))
    (hfit : Fit served a (f (a.kind m))) :
    Builds p s a ((a.adopt m x).updateKind m f) ∧
      Forest p s served ((a.adopt m x).updateKind m f) loose := by
  have hx := h.held x (List.mem_cons_self ..)
  obtain ⟨h₁, h₂⟩ := h.adopt m (List.mem_cons_self ..)
  obtain ⟨h₃, h₄⟩ := h₂.insert (h₁.toGrows.own hm) (parent_adopt hx.lt_size m)
    (by rw [kind_adopt, kind_adopt]; exact hl) f (by rw [kind_adopt]; exact hgrown)
    (by rw [kind_adopt]; exact hf)
    (by rw [kind_adopt]; exact hfit.congr h₁.toStays h₁.size_le)
  exact ⟨h₁.trans h₃, h₄⟩

end Forest

/-! ## Members -/

theorem EnumFit.insert {decl : Enumeration} {name : String} {value : Int64}
    (h : EnumFit a decl) (hb : Gained a b name (.enumValue value))
    (hfree : decl.values.find? name = none) (hv : decl.base.contains value.toInt = true) :
    EnumFit b ⟨decl.base, decl.values.insert name a.size, some (decl.default.getD a.size),
      decl.isError⟩ where
  default_eq := by
    rw [Registry.nodes_insert _ hfree, h.default_eq, List.head?_append]
    cases decl.values.nodes.head? <;> rfl
  values entry he := by
    rw [Registry.entries_insert_of_find?_eq_none _ hfree, Array.toList_push] at he
    rcases List.mem_append.1 he with he | he
    · exact (h.congr hb.toStays).values entry he
    · rw [List.mem_singleton] at he
      subst he
      exact ⟨hb.new_name, value, hb.new_kind, hv⟩

theorem TableFit.push {decl : Table} {name : String} {type : NodeId}
    (h : TableFit a decl)
    (hb : Gained a b name (.field ⟨UInt16.ofNat decl.fields.size, type⟩))
    (hfree : ∀ field ∈ decl.fields.toList, a.name field ≠ name) (hc : decl.fields.size < 65535) :
    TableFit b ⟨decl.fields.push a.size, decl.isStruct⟩ where
  count := by
    rw [Array.size_push]
    exact hc
  fields i hi := by
    rw [Array.size_push] at hi
    by_cases he : i < decl.fields.size
    · rw [Array.getElem_push_lt he]
      exact (h.congr hb.toStays).fields i he
    · have hi' : i = decl.fields.size := by omega
      subst hi'
      rw [Array.getElem_push_eq]
      exact ⟨type, hb.new_kind⟩
  distinct := by
    have hold := (h.congr hb.toStays).distinct
    rw [Array.toList_push, List.map_append, List.map_singleton, hb.new_name]
    refine List.nodup_append.2 ⟨hold, by simp, fun x hx y hy e => ?_⟩
    rw [List.mem_singleton] at hy
    obtain ⟨field, hf, rfl⟩ := List.mem_map.1 hx
    refine hfree field hf ?_
    rw [← hb.name_eq field (h.lt_size hf), e, hy]

theorem ContractFit.insert {decl : Contract} {name : String} (h : ContractFit a decl)
    (hb : Gained a b name (.method ⟨UInt16.ofNat decl.methods.entries.size, #[], #[]⟩))
    (hfree : decl.methods.find? name = none) :
    ContractFit b ⟨decl.bases, decl.methods.insert name a.size, decl.flattened⟩ where
  flattened := h.flattened
  bases := (h.congr hb.toStays).bases
  methods i entry he := by
    rw [Registry.entries_insert_of_find?_eq_none _ hfree, Array.toList_push,
      List.getElem?_append] at he
    split at he
    · exact (h.congr hb.toStays).methods i entry he
    · obtain ⟨hi, rfl⟩ := List.getElem?_eq_some_iff.1 he
      rename_i hge
      rw [List.length_singleton] at hi
      have he : i = decl.methods.entries.size := by
        rw [Array.length_toList] at hi hge
        omega
      subst he
      simp only [Array.length_toList, Nat.sub_self, List.getElem_cons_zero]
      exact ⟨hb.new_name, _, hb.new_kind, rfl⟩

namespace Forest

theorem newEnumValue {decl : Enumeration} (h : Forest p s served a loose) (hm : a.Own s m)
    (hk : a.kind m = .enum decl) (name : String) (value : Int64) (position : Position)
    (hv : decl.base.contains value.toInt = true) :
    Tries a (a.newEnumValue m name value position) fun id b => Builds p s a b ∧
      Forest p s served b loose ∧ b.Own s id ∧
      (b.kind id).ctorIdx = (NodeKind.enumValue value).ctorIdx ∧
      ∃ decl', b.kind m = .enum decl' ∧ decl'.default.isSome := by
  unfold Arena.newEnumValue Tries
  rw [enum?_eq_some.2 hk, Option.bind_some]
  cases hfree : decl.values.find? name with
  | some existing => rfl
  | none =>
    have hfit := h.fit m hm
    rw [hk] at hfit
    have hs : (a.node m).script = some s := hm
    simp only [hs, fst_alloc]
    refine (h.sprout hm name position (.enumValue value) trivial rfl
      (by rw [hk]; exact Nat.lt_succ_self 5) _ ?_ ?_ fun g hg => ?_).imp id (.imp id (.imp id
        (.imp NodeKind.Grown.shape fun hself => ⟨_, hself.trans (by rw [hk]), rfl⟩)))
    · rw [hk]
      refine ⟨rfl, nofun, fun _ _ e e' => by cases e; cases e'; rfl, fun _ _ e e' hd => ?_, nofun⟩
      cases e
      cases e'
      obtain ⟨first, hfirst⟩ := Option.isSome_iff_exists.1 hd
      rw [hfirst]
      rfl
    · rw [hk]
      simp only [NodeKind.parts, Registry.nodes_insert a.size hfree]
      exact List.perm_append_singleton ..
    · rw [hk]
      exact EnumFit.insert hfit hg hfree hv

theorem newMethod {decl : Contract} (h : Forest p s served a loose) (hm : a.Own s m)
    (hk : a.kind m = .contract decl) (name : String) (position : Position) :
    Tries a (a.newMethod m name position) fun id b => Builds p s a b ∧
      Forest p s served b loose ∧ b.Own s id ∧
      ∃ number, (NodeKind.method ⟨number, #[], #[]⟩).Grown (b.kind id) := by
  unfold Arena.newMethod findMethod? Tries
  rw [contract?_eq_some.2 hk, Option.bind_some]
  cases hfree : decl.methods.find? name with
  | some existing => rfl
  | none =>
    have hfit := h.fit m hm
    rw [hk] at hfit
    have hnodes := Registry.nodes_insert a.size hfree
    have hs : (a.node m).script = some s := hm
    simp only [hs, Option.isNone_some, Bool.false_eq_true, if_false, fst_alloc]
    refine (h.sprout hm name position (.method ⟨UInt16.ofNat (a.methodCount m), #[], #[]⟩)
      (fun slot hslot => by cases hslot) rfl (by rw [hk]; exact Nat.lt_succ_self 5) _ ?_ ?_
      fun g hg => ?_).imp id (.imp id (.imp id fun hnew => ⟨_, hnew.1⟩))
    · rw [hk]
      exact .of_shape rfl rfl nofun nofun
    · rw [hk]
      simp only [NodeKind.parts, hnodes, ← List.append_assoc]
      exact List.perm_append_singleton ..
    · have hcount : a.methodCount m = decl.methods.entries.size := by
        unfold methodCount
        rw [contract?_eq_some.2 hk]
        rfl
      rw [hcount] at hg
      rw [hk]
      exact ContractFit.insert hfit hg hfree

theorem newField {decl : Table} {type : Nat} (h : Forest p s served a (type :: loose))
    (hm : a.Own s m) (hk : a.kind m = .table decl) (ht : (a.kind type).isType = true)
    (hcount : (a.fieldsOf m).size < 65535) (name : String) (position : Position) :
    Tries a (a.newField m name type position) fun id b => Builds p s a b ∧
      Forest p s served b loose ∧ b.Own s id ∧
      (b.kind id).ctorIdx = (NodeKind.field ⟨0, type⟩).ctorIdx := by
  have hfields : a.fieldsOf m = decl.fields := by
    unfold fieldsOf
    rw [table?_eq_some.2 hk]
  rw [hfields] at hcount
  unfold Arena.newField Tries
  rw [hfields]
  cases hfree : decl.fields.find? fun field => a.name field == name with
  | some existing => rfl
  | none =>
    have hs : (a.node m).script = some s := hm
    have hfit := h.fit m hm
    rw [hk] at hfit
    simp only [hs, fst_alloc]
    refine h.sproutOver hm name position (.field ⟨UInt16.ofNat decl.fields.size, type⟩) ht rfl
      (Nat.le_trans (NodeKind.level_of_isType ht) (show 3 ≤ 5 by decide))
      (by rw [hk]; exact Nat.lt_succ_self 5) _ ?_ ?_ (fun g hg => ?_) rfl
    · rw [hk]
      exact .of_shape rfl rfl nofun nofun
    · rw [hk]
      simp only [NodeKind.parts, Array.toList_push]
      exact List.perm_append_singleton ..
    · rw [hk]
      refine TableFit.push hfit hg (fun field hf e => ?_) hcount
      have hno := Array.find?_eq_none.1 hfree field (Array.mem_toList_iff.1 hf)
      exact hno (by simpa using e)

/-- A slot of a method, entered by `f`. -/
theorem newSlot {decl : Method} {type : Nat} (h : Forest p s served a (type :: loose))
    (hm : a.Own s m) (hk : a.kind m = .method decl) (ht : (a.kind type).isType = true)
    (place : UInt16) (position : Position) (f : NodeKind → NodeKind) {decl' : Method}
    (hf : f (.method decl) = .method decl') (hid : decl'.id = decl.id)
    (hparts : (decl'.params.toList ++ decl'.results.toList).Perm
      (a.size :: (decl.params.toList ++ decl.results.toList))) :
    Builds p s a ((a.newSlot m place type position).2.updateKind m f) ∧
      Forest p s served ((a.newSlot m place type position).2.updateKind m f) loose ∧
      ((a.newSlot m place type position).2.updateKind m f).Own s a.size ∧
      (((a.newSlot m place type position).2.updateKind m f).kind a.size).ctorIdx =
        (NodeKind.param ⟨place, type⟩).ctorIdx := by
  have hs : (a.node m).script = some s := hm
  have hfit := h.fit m hm
  rw [hk] at hfit
  unfold Arena.newSlot
  simp only [hs]
  refine h.sproutOver hm ("arg" ++ toString place.toNat) position (.param ⟨place, type⟩) ht rfl
    (Nat.le_trans (NodeKind.level_of_isType ht) (show 3 ≤ 4 by decide))
    (by rw [hk]; exact Nat.lt_succ_self 4) f ?_ ?_ (fun g hg => ?_) rfl
  · rw [hk, hf]
    exact ⟨rfl, nofun, nofun, nofun, fun _ _ e e' => by cases e; cases e'; exact hid⟩
  · rw [hk, hf]
    exact hparts
  · rw [hk, hf]
    intro slot hslot
    rcases List.mem_cons.1 (hparts.mem_iff.1 hslot) with rfl | hslot
    · rw [hg.new_kind]
      rfl
    · exact hfit.congr hg.toStays hg.size_le slot hslot

theorem newParam {decl : Method} {type : Nat} (h : Forest p s served a (type :: loose))
    (hm : a.Own s m) (hk : a.kind m = .method decl) (ht : (a.kind type).isType = true)
    (position : Position) :
    Builds p s a (a.newParam m type position).2 ∧
      Forest p s served (a.newParam m type position).2 loose ∧
      (a.newParam m type position).2.Own s (a.newParam m type position).1 ∧
      ((a.newParam m type position).2.kind (a.newParam m type position).1).ctorIdx =
        (NodeKind.param ⟨0, type⟩).ctorIdx := by
  obtain ⟨number, params, results⟩ := decl
  let decl' : Method := ⟨number, params.push a.size, results⟩
  have hparts : (decl'.params.toList ++ decl'.results.toList).Perm
      (a.size :: (params.toList ++ results.toList)) := by
    simp only [decl', Array.toList_push, List.append_assoc]
    exact List.perm_middle
  exact h.newSlot hm hk ht _ position _ rfl rfl hparts

theorem newResult {decl : Method} {type : Nat} (h : Forest p s served a (type :: loose))
    (hm : a.Own s m) (hk : a.kind m = .method decl) (ht : (a.kind type).isType = true)
    (position : Position) :
    Builds p s a (a.newResult m type position).2 ∧
      Forest p s served (a.newResult m type position).2 loose ∧
      (a.newResult m type position).2.Own s (a.newResult m type position).1 ∧
      ((a.newResult m type position).2.kind (a.newResult m type position).1).ctorIdx =
        (NodeKind.param ⟨0, type⟩).ctorIdx := by
  obtain ⟨number, params, results⟩ := decl
  let decl' : Method := ⟨number, params, results.push a.size⟩
  have hparts : (decl'.params.toList ++ decl'.results.toList).Perm
      (a.size :: (params.toList ++ results.toList)) := by
    simp only [decl', Array.toList_push, ← List.append_assoc]
    exact List.perm_append_singleton ..
  exact h.newSlot hm hk ht _ position _ rfl rfl hparts

theorem addBase {decl : Contract} {base : Nat} (h : Forest p s served a (base :: loose))
    (hm : a.Own s m) (hk : a.kind m = .contract decl) (hl : (a.kind base).level = 0) :
    Tries a (a.addBase m base) fun _ b => Builds p s a b ∧ Forest p s served b loose := by
  unfold Arena.addBase Tries
  cases (a.basesOf m).find? fun other => a.name other == a.name base with
  | some existing => rfl
  | none =>
    have hfit := h.fit m hm
    rw [hk] at hfit
    refine h.attach hm (by rw [hk, hl]; exact Nat.zero_lt_succ 5) _ ?_ ?_ ?_
    · rw [hk]
      exact .of_shape rfl rfl nofun nofun
    · rw [hk]
      simp only [NodeKind.parts, Array.toList_push, List.append_assoc]
      exact List.perm_middle
    · rw [hk]
      refine ⟨hfit.flattened, fun r hr => ?_, hfit.methods⟩
      rw [Array.toList_push] at hr
      rcases List.mem_append.1 hr with hr | hr
      · exact hfit.bases r hr
      · rw [List.mem_singleton] at hr
        rw [hr, hl]

/-! ## Attributes and arguments -/

theorem setAttrArgs {type args : Nat} (h : Forest p s served a (args :: loose)) (hm : a.Own s m)
    (hk : a.kind m = .attr ⟨type, none⟩) (hl : (a.kind args).level = 2) :
    Builds p s a (a.setAttrArgs m args) ∧ Forest p s served (a.setAttrArgs m args) loose := by
  have hfit := h.fit m hm
  rw [hk] at hfit
  refine h.attach hm (by rw [hk, hl]; exact Nat.lt_succ_self 2) _ ?_ ?_ ?_
  · rw [hk]
    exact .of_shape rfl rfl nofun nofun
  · rw [hk]
    exact .swap ..
  · rw [hk]
    exact ⟨hfit.1, fun x e => by cases e; exact hl⟩

theorem pushArg {items : Array NodeId} (h : Forest p s served a (x :: loose)) (hm : a.Own s m)
    (hk : a.kind m = .args items) (hl : (a.kind x).level ≤ 1) :
    Builds p s a (a.pushArg m x) ∧ Forest p s served (a.pushArg m x) loose := by
  have hfit := h.fit m hm
  rw [hk] at hfit
  have hx := (h.held x (List.mem_cons_self ..)).lt_size
  refine h.attach hm (by rw [hk]; exact Nat.lt_succ_of_le hl) _ ?_ ?_ ?_
  · rw [hk]
    exact .of_shape rfl rfl nofun nofun
  · rw [hk]
    simp only [NodeKind.parts, Array.toList_push]
    exact List.perm_append_singleton ..
  · rw [hk]
    intro y hy
    rw [Array.toList_push] at hy
    rcases List.mem_append.1 hy with hy | hy
    · exact hfit y hy
    · rw [List.mem_singleton] at hy
      exact hy ▸ ⟨hx, hl⟩

theorem insertNamedArg {items : Registry} (h : Forest p s served a (x :: loose)) (hm : a.Own s m)
    (hk : a.kind m = .namedArgs items) (hl : (a.kind x).level ≤ 1) (name : String) :
    Tries a (a.insertNamedArg m name x) fun _ b => Builds p s a b ∧
      Forest p s served b loose := by
  unfold Arena.insertNamedArg namedArgs? Tries
  rw [hk, Option.bind_some]
  cases hfree : items.find? name with
  | some existing => rfl
  | none =>
    have hnodes := Registry.nodes_insert x hfree
    have hfit := h.fit m hm
    rw [hk] at hfit
    have hx := (h.held x (List.mem_cons_self ..)).lt_size
    refine h.attach hm (by rw [hk]; exact Nat.lt_succ_of_le hl) _ ?_ ?_ ?_
    · rw [hk]
      exact .of_shape rfl rfl nofun nofun
    · rw [hk]
      simp only [NodeKind.parts, hnodes]
      exact List.perm_append_singleton ..
    · rw [hk]
      intro y hy
      rw [hnodes] at hy
      rcases List.mem_append.1 hy with hy | hy
      · exact hfit y hy
      · rw [List.mem_singleton] at hy
        exact hy ▸ ⟨hx, hl⟩

/-! ## Scripts -/

/-- Comments change nothing that the invariant speaks of. -/
theorem bindComments (h : Forest p s served a loose) (hm : a.Owner s m) (comments : List Comment) :
    Builds p s a (a.bindComments m comments) ∧
      Forest p s served (a.bindComments m comments) loose := by
  refine Forest.change [] h (changed_update (h.owner_lt_size hm) _) hm
    ⟨rfl, rfl, .refl _, Or.inl rfl, .refl _, fun c hc => (by cases hc), fun c hc => Or.inl hc, ?_,
      fun ho => h.fit m ho⟩
  intro decl e hk
  subst e
  obtain ⟨decl', hd', hf⟩ := h.isScript
  change a.kind m = _ at hk
  rw [hd'] at hk
  cases hk
  exact ⟨hf, fun t ht => scriptTypes_eq hd' ▸ ht, fun t ht => by cases ht⟩

theorem newPackageRef (h : Forest p s served a loose) (name : String) {package : Nat}
    (position : Position) (hp : (a.kind package).level = 8) (hserved : served package) :
    Tries a (a.newPackageRef s name package position) fun id b => Builds p s a b ∧
      Forest p s served b loose ∧ b.Own s id := by
  obtain ⟨decl, hd, hfit⟩ := h.isScript
  unfold Arena.newPackageRef Tries
  rw [script?_eq_some.2 hd, Option.bind_some]
  cases hfree : decl.imports.find? name with
  | some existing => rfl
  | none =>
    obtain ⟨hmade, h₂⟩ := h.leaf name position (.packageRef package) ⟨hp, hserved⟩ rfl
    have h₁ := hmade.builds_alloc (by exact (by decide : 5 < 6))
    have hid := h₂.held a.size (List.mem_cons_self ..)
    obtain ⟨h₃, h₄⟩ := h₂.adopt s (List.mem_cons_self ..)
    have hid' := h₃.toGrows.own hid
    obtain ⟨owner, path, imports, types⟩ := decl
    have hnodes := Registry.nodes_insert a.size hfree
    have hlt := h.owner_lt_size (Or.inl rfl)
    have hd' : ((a.alloc name (some s) position (.packageRef package)).2.adopt s a.size).kind s =
        .script ⟨owner, path, imports, types⟩ := by
      rw [kind_adopt, ← hd]
      unfold kind
      rw [node_alloc, if_neg (Nat.ne_of_lt hlt)]
    have hnew : ((a.alloc name (some s) position (.packageRef package)).2.adopt s a.size).kind
        a.size = .packageRef package := by
      rw [kind_adopt, kind_alloc_self]
    have hfit' := hfit.congr (h₁.trans h₃).types (h₁.trans h₃).toStays
    have hparent := parent_adopt hid.lt_size s
    -- whatever function makes the entry
    suffices hall : ∀ f : NodeKind → NodeKind, f (.script ⟨owner, path, imports, types⟩) =
        .script ⟨owner, path, imports.insert name a.size, types⟩ → ∀ g : Arena,
        ((a.alloc name (some s) position (.packageRef package)).2.adopt s a.size).updateKind s f = g →
        Builds p s a g ∧ Forest p s served g loose ∧ g.Own s a.size from hall _ rfl _ rfl
    rintro f hf _ rfl
    obtain ⟨h₅, h₆⟩ := h₄.insertTop hd' hparent f hf
      (by
        simp only [NodeKind.parts, hnodes, List.append_assoc]
        exact List.perm_middle)
      ⟨hfit'.package_eq, hfit'.types, fun r hr => by
        rw [hnodes] at hr
        rcases List.mem_append.1 hr with hr | hr
        · exact hfit'.imports r hr
        · rw [List.mem_singleton] at hr
          rw [hr, packageRef?_eq_some.2 hnew]
          rfl⟩
      (fun t ht => ht) (by
        rw [hnew]
        exact fun e => absurd e (by exact (by decide : (5 : Nat) ≠ 6)))
    exact ⟨(h₁.trans h₃).trans h₅, h₆, h₅.toGrows.own hid'⟩

/-- A declaration of the script is entered into the package and the script. -/
theorem declareType {type : Nat} (h : Forest p s served a (type :: loose))
    (hl : (a.kind type).level = 6) :
    Tries a (a.declareType s type) fun _ b => Builds p s a b ∧ Forest p s served b loose := by
  obtain ⟨decl, hd, hfit⟩ := h.isScript
  obtain ⟨package, hp⟩ := h.isPackage
  have ht := h.held type (List.mem_cons_self ..)
  have hhome : a.packageOf s = some p := packageOf_of_home (by
    rw [home_of_script hd, hfit.package_eq])
  unfold Arena.declareType Tries
  simp only [hhome, package?_eq_some.2 hp, Option.bind_some]
  cases hfree : package.types.find? (a.name type) with
  | some existing => rfl
  | none =>
    obtain ⟨scripts, types⟩ := package
    -- whatever functions make the entries
    suffices hall : ∀ f g : NodeKind → NodeKind,
        f (.package ⟨scripts, types⟩) = .package ⟨scripts, types.insert (a.name type) type⟩ →
        (∀ owner path imports entered, g (.script ⟨owner, path, imports, entered⟩) =
          .script ⟨owner, path, imports, entered.push type⟩) →
        Builds p s a (((a.updateKind p f).updateKind s g).adopt s type) ∧
          Forest p s served (((a.updateKind p f).updateKind s g).adopt s type) loose from
      hall _ _ rfl fun _ _ _ _ => rfl
    intro f g hf hg
    have horder : ((a.updateKind p f).updateKind s g).adopt s type =
        ((a.adopt s type).updateKind p f).updateKind s g := by
      unfold Arena.adopt updateKind
      rw [update_comm _ fun e => h.script_ne ht e.symm,
        update_comm _ fun e => h.package_ne (Or.inr ht) e.symm]
    obtain ⟨h₁, h₂⟩ := h.adopt s (List.mem_cons_self ..)
    have hp' : (a.adopt s type).kind p = .package ⟨scripts, types⟩ := by
      rw [kind_adopt, hp]
    have hentries : (types.insert (a.name type) type).entries.toList =
        types.entries.toList ++ [((a.adopt s type).name type, type)] := by
      rw [Registry.entries_insert_of_find?_eq_none type hfree, Array.toList_push, name_adopt]
    obtain ⟨h₃, h₄, hmem⟩ := h₂.enterType hp' (List.mem_cons_self ..)
      (by rw [kind_adopt, hl]) hentries
      (changed_kind (lt_size_of_kind (by rw [hp']; simp [NodeKind.level])) hp' hf)
    have hparent : (((a.adopt s type).updateKind p f).node type).parent = some s := by
      rw [node_updateKind, if_neg fun e => h.package_ne (Or.inr ht) e.1]
      exact parent_adopt ht.lt_size s
    rw [horder]
    generalize (a.adopt s type).updateKind p f = b at h₃ h₄ hmem hparent ⊢
    obtain ⟨⟨owner, path, imports, entered⟩, hd', hfit'⟩ := h₄.isScript
    obtain ⟨h₅, h₆⟩ := h₄.insertTop hd' hparent g (hg ..)
      (by
        simp only [NodeKind.parts, Array.toList_push, ← List.append_assoc]
        exact List.perm_append_singleton ..)
      ⟨hfit'.package_eq, fun t hm => by
        rw [Array.toList_push] at hm
        rcases List.mem_append.1 hm with hm | hm
        · exact hfit'.types t hm
        · rw [List.mem_singleton] at hm
          exact hm ▸ hmem, hfit'.imports⟩
      (fun t hm => by
        rw [Array.toList_push]
        exact List.mem_append_left _ hm)
      (fun _ => by
        rw [Array.toList_push]
        exact List.mem_append_right _ (List.mem_singleton.2 rfl))
    exact ⟨(h₁.trans h₃).trans h₅, h₆⟩

end Forest

end SchemaLang.Arena
