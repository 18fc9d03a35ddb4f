import SchemaLang.Proofs.Link.Flattening
import SchemaLang.Proofs.Link.Scene

/-!
# Flattening copies into the package

The third pass of linking renumbers the methods of the contracts of the package and adds copies of
methods to them. The contracts that it comes by in linked packages are flattened already, so it
leaves them alone (`leads_flattenContracts`).
-/

namespace SchemaLang

open Arena

namespace Scene

variable {scene : Scene} {a b : Arena} {c m n t : Nat} {add : Adder}

/-! ## What references lead to -/

/-- The node is a type of a package that is linked or being linked. -/
def Aimed (scene : Scene) (a : Arena) (t : NodeId) : Prop :=
  ∃ q, scene.Covers a q ∧ t ∈ a.typesOf q

theorem Holds.covers_of_aimed (h : Holds scene a) (ht : scene.Aimed a t) : scene.Covers a t := by
  obtain ⟨q, hq, hmem⟩ := ht
  exact h.closed.reference hq (mem_references_of_typesOf hmem)

/-- A reference that is bound to a contract is bound to a type of a package. -/
theorem Holds.aimed {path : List String} {decl : Contract} (h : Holds scene a)
    (hn : scene.Covers a n) (hk : a.kind n = .typeRef ⟨path, some t⟩)
    (hc : a.kind t = .contract decl) : scene.Aimed a t := by
  obtain ⟨path', t', hk', hm⟩ := h.bound n _ hn hk
  rw [hk] at hk'
  cases hk'
  obtain ⟨s, script, package, decl', hs, hks, hp, -, hd⟩ := hm
  have hcs := h.closed.script hn hs
  have hcp : scene.Covers a script.package := h.closed.reference hcs (by
    rw [hks]
    exact List.mem_singleton.2 rfl)
  -- the value of an enum is no contract
  have hvalue : ∀ (enum : Nat) (e : Enumeration) (name : String), scene.Covers a enum →
      a.kind enum = .enum e → e.values.find? name = some t → False := by
    intro enum e name hce hke hv
    have hlt := h.plain enum t hce (by rw [hke]; rfl) (List.mem_append_right _ (by
      unfold kind at hke
      rw [hke]
      exact Registry.mem_nodes_of_find? hv))
    rw [hc] at hlt
    exact absurd hlt (by decide : ¬ 6 < 6)
  generalize decl'.path = path at hd
  cases hd with
  | type _ ht =>
    refine ⟨script.package, hcp, ?_⟩
    rw [typesOf_eq hp]
    exact Registry.mem_nodes_of_find? ht
  | imported hi ht =>
    obtain ⟨node, q, -, hq, -, -, hkq⟩ := h.closed.imports hcs hks hi
    refine ⟨q, hq, ?_⟩
    rw [typesOf_eq hkq]
    exact Registry.mem_nodes_of_find? ht
  | value _ he hke ht => exact (hvalue _ _ _ (h.closed.type hcp hp he) hke ht).elim
  | importedValue hi he hke ht =>
    obtain ⟨node, q, -, hq, -, -, hkq⟩ := h.closed.imports hcs hks hi
    exact (hvalue _ _ _ (h.closed.type hq hkq he) hke ht).elim

/-- A contract that is not flattened belongs to the package. -/
theorem Holds.home_of_aimed {decl : Contract} (h : Holds scene a) (ht : scene.Aimed a t)
    (hk : a.kind t = .contract decl) (hf : decl.flattened = false) :
    t < scene.start.size ∧ a.home t = some scene.package := by
  obtain ⟨q, hq, hmem⟩ := ht
  obtain ⟨package, hp, -⟩ := package_of_typesOf hmem
  obtain ⟨q', hq', he⟩ := h.home q hq
  rw [home_of_package hp] at hq'
  cases hq'
  rcases he with rfl | hcached
  · exact h.declared t hmem
  · have hflat := h.flat q t decl hcached hmem hk
    rw [hf] at hflat
    cases hflat

/-! ## What a step keeps -/

theorem Rearranges.covers (h : Rearranges scene a b) (ha : Holds scene a)
    (hn : scene.Covers a n) : scene.Covers b n := by
  have hlt := ha.covers_lt hn
  rcases hn with hn | hn | ⟨hn, -⟩
  · exact Or.inl hn
  · exact Or.inr (Or.inl (by rw [h.homes n hlt, hn]))
  · exact Or.inr (Or.inr ⟨hn, Nat.lt_of_lt_of_le hlt h.size_le⟩)

theorem Rearranges.typesOf_eq (h : Rearranges scene a b) (hq : n < a.size)
    (hp : ∃ decl, a.kind n = .package decl) : b.typesOf n = a.typesOf n := by
  obtain ⟨decl, hd⟩ := hp
  have hk := h.kinds n hq
  rw [hd] at hk
  rw [Arena.typesOf_eq hd, Arena.typesOf_eq hk]

theorem Rearranges.aimed (h : Rearranges scene a b) (ha : Holds scene a)
    (ht : scene.Aimed a t) : scene.Aimed b t := by
  obtain ⟨q, hq, hmem⟩ := ht
  obtain ⟨package, hp, -⟩ := package_of_typesOf hmem
  refine ⟨q, h.covers ha hq, ?_⟩
  rw [h.typesOf_eq (ha.covers_lt hq) ⟨package, hp⟩]
  exact hmem

theorem Rearranges.method (h : Rearranges scene a b) (hm : (a.method? m).isSome) :
    (b.method? m).isSome := by
  rw [method?_isSome_congr (h.shape m (lt_size_of_method hm))]
  exact hm

/-- A node of the package or of a linked one, or a copy. -/
def Source (scene : Scene) (n : Nat) : Prop :=
  scene.settled n ∨ scene.start.home n = some scene.package ∨ scene.start.size ≤ n

theorem Holds.source (h : Holds scene a) (hn : scene.Covers a n) : scene.Source n := by
  rcases hn with hn | hn | ⟨hn, -⟩
  · exact Or.inl hn
  · rcases Nat.lt_or_ge n scene.start.size with hlt | hge
    · exact Or.inr (Or.inl (by rw [← h.homes n hlt, hn]))
    · exact Or.inr (Or.inr hge)
  · exact Or.inr (Or.inr hn)

/-- A method with the slots and the attributes of another one. -/
def CopyOf (a : Arena) (m n : Nat) : Prop :=
  (a.node n).attrs = (a.node m).attrs ∧ ∃ decl copy, a.kind m = .method decl ∧
    a.kind n = .method copy ∧ copy.params = decl.params ∧ copy.results = decl.results

/-- What a step of the third pass does: attributes and tags stay, and the new nodes are copies of
methods. -/
structure Copies (scene : Scene) (a b : Arena) : Prop extends Rearranges scene a b where
  attrs_eq : ∀ n : Nat, n < a.size → (b.node n).attrs = (a.node n).attrs
  table : ∀ (n : Nat) (decl : Table), a.kind n = .table decl → b.kind n = .table decl
  enum : ∀ (n : Nat) (decl : Enumeration), a.kind n = .enum decl → b.kind n = .enum decl
  copied : ∀ n : Nat, a.size ≤ n → n < b.size → ∃ m, m < n ∧ scene.Source m ∧ CopyOf b m n

theorem Copies.copyOf (h : Copies scene a b) (hm : m < a.size) (hn : n < a.size)
    (hc : CopyOf a m n) : CopyOf b m n := by
  obtain ⟨hattrs, decl, copy, hd, hcopy, hparams, hresults⟩ := hc
  have hkm := h.kinds m hm
  have hkn := h.kinds n hn
  rw [hd] at hkm
  rw [hcopy] at hkn
  obtain ⟨number, hkm⟩ := hkm
  obtain ⟨number', hkn⟩ := hkn
  exact ⟨by rw [h.attrs_eq n hn, h.attrs_eq m hm, hattrs], _, _, hkm, hkn, hparams, hresults⟩

instance : IsPreorder Arena (Copies scene) where
  refl a := ⟨refl a, fun _ _ => rfl, fun _ _ => id, fun _ _ => id, fun n hn hn' => by omega⟩
  trans _ _ _ h h' := by
    refine ⟨h.toRearranges.trans h'.toRearranges, fun n hn => ?_,
      fun n decl hk => h'.table n decl (h.table n decl hk),
      fun n decl hk => h'.enum n decl (h.enum n decl hk), fun n hn hn' => ?_⟩
    · rw [h'.attrs_eq n (Nat.lt_of_lt_of_le hn h.size_le), h.attrs_eq n hn]
    · rcases Nat.lt_or_ge n _ with hlt | hge
      · obtain ⟨m, hm, hs, hc⟩ := h.copied n hn hlt
        exact ⟨m, hm, hs, h'.copyOf (Nat.lt_trans hm hlt) hlt hc⟩
      · exact h'.copied n hge hn'

/-- A change of a method or of a contract. -/
theorem Copies.of_changed {kind : NodeKind} (hr : Rearranges scene a b)
    (hc : Changed a b m { a.node m with kind := kind })
    (hk : (a.method? m).isSome ∨ (a.contract? m).isSome) : Copies scene a b := by
  have hne : ∀ n : Nat, a.method? n = none → a.contract? n = none → b.kind n = a.kind n := by
    intro n hm hcontract
    have hnm : n ≠ m := by
      rintro rfl
      rw [hm, hcontract] at hk
      exact hk.elim Bool.false_ne_true Bool.false_ne_true
    unfold Arena.kind
    rw [hc.node_ne hnm]
  refine ⟨hr, fun n _ => ?_, fun n decl hd => ?_, fun n decl hd => ?_, fun n hn hn' => ?_⟩
  · by_cases hnm : n = m
    · rw [hnm, hc.node_self]
    · rw [hc.node_ne hnm]
  · rw [hne n (by unfold method?; rw [hd]) (by unfold contract?; rw [hd]), hd]
  · rw [hne n (by unfold method?; rw [hd]) (by unfold contract?; rw [hd]), hd]
  · rw [hc.size_eq] at hn'
    omega

/-- A contract of the package that is not done yet. Its bases are contracts. -/
structure Pending (scene : Scene) (a : Arena) (contract : Nat) : Prop where
  home : a.home contract = some scene.package
  isContract : ∃ decl, a.kind contract = .contract decl ∧ a.Resolves decl.bases.toList

theorem Rearranges.pending (h : Rearranges scene a b) (hc : Pending scene a c) :
    Pending scene b c := by
  have hlt := lt_size_of_home hc.home
  obtain ⟨decl, hd, hr⟩ := hc.isContract
  have hk := h.kinds c hlt
  rw [hd] at hk
  obtain ⟨decl', hd', hbases, -⟩ := hk
  exact ⟨(h.homes c hlt).trans hc.home, decl', hd', by rw [hbases]; exact h.resolves hr⟩

/-! ## The methods of a contract -/

theorem Holds.setMethodId (h : Holds scene a) (hm : scene.Covers a m) (hl : scene.Loose m)
    (hmethod : (a.method? m).isSome) (number : UInt16) :
    Copies scene a (a.setMethodId m number) ∧ Holds scene (a.setMethodId m number) := by
  obtain ⟨⟨old, params, results⟩, hd⟩ := Option.isSome_iff_exists.1 hmethod
  rw [method?_eq_some] at hd
  have hc : Changed a (a.setMethodId m number) m
      { a.node m with kind := .method ⟨number, params, results⟩ } :=
    changed_kind (h.covers_lt hm) hd rfl
  have hedits : Edits scene a m { a.node m with kind := .method ⟨number, params, results⟩ } := by
    refine ⟨hl, hm, rfl, rfl, by rw [hd]; rfl, by rw [hd]; exact ⟨number, rfl⟩,
      fun l hmem => ?_, fun hlevel => ?_, fun decl e => (by cases e), fun decl e => by cases e⟩
    · refine h.closed m l hm ?_
      unfold kind at hd
      rw [Node.mem_links] at hmem ⊢
      unfold Node.children at *
      rw [hd]
      exact hmem
    · rw [hd] at hlevel
      exact absurd hlevel (by decide : ¬ 5 = 6)
  obtain ⟨hr, hb⟩ := h.edit hc hedits
  exact ⟨.of_changed hr hc (Or.inl hmethod), hb⟩

theorem leads_shiftMethods (distance : UInt16) : ∀ (methods : List NodeId) (a : Arena),
    Holds scene a → (∀ m ∈ methods, scene.Covers a m ∧ scene.Loose m ∧ (a.method? m).isSome) →
    Leads (Copies scene) (Link.shiftMethods add distance methods) a fun _ b => Holds scene b
  | [], a, h, _ => Leads.pure h
  | m :: rest, a, h, hm => by
    obtain ⟨hcovers, hloose, hmethod⟩ := hm m (List.mem_cons_self ..)
    cases hadd : add (a.methodId m) distance with
    | error failure =>
      have hrun : Link.shiftMethods add distance (m :: rest) a = .error failure a := by
        simp only [Link.shiftMethods, hadd]
      exact .of_error hrun (refl a)
    | ok number =>
      have hrun : Link.shiftMethods add distance (m :: rest) a =
          Link.shiftMethods add distance rest (a.setMethodId m number) := by
        simp only [Link.shiftMethods, hadd]
      obtain ⟨hr, hb⟩ := h.setMethodId hcovers hloose hmethod number
      refine .follow hrun hr (leads_shiftMethods distance rest _ hb fun x hx => ?_)
      obtain ⟨h₁, h₂, h₃⟩ := hm x (List.mem_cons_of_mem _ hx)
      exact ⟨hr.covers h h₁, h₂, hr.method h₃⟩

/-! ## Copies -/

theorem Holds.copyMethod (h : Holds scene a) (hc : Pending scene a c) (hm : scene.Covers a m)
    (hmethod : (a.method? m).isSome) (number : UInt16) :
    Copies scene a (a.copyMethod m c number).2 ∧
      Holds scene (a.copyMethod m c number).2 := by
  obtain ⟨⟨old, params, results⟩, hd⟩ := Option.isSome_iff_exists.1 hmethod
  have hkind := method?_eq_some.1 hd
  have hcovers : scene.Covers a c := Or.inr (Or.inl hc.home)
  -- the copy
  let copy : Node := { a.node m with parent := some c, kind := .method ⟨number, params, results⟩ }
  obtain ⟨h₁, h₂, hnew⟩ := h.push (x := copy) hm hmethod rfl rfl (by
    intro l hl
    rcases Node.mem_links.1 hl with hl | hl | hl | hl
    · cases hl
      exact hcovers
    · exact h.closed.script hm hl
    · refine h.closed.child hm ?_
      unfold kind at hkind
      unfold children Node.children at *
      rw [hkind]
      exact hl
    · cases hl)
  have hnewKind : (a.push copy).2.kind a.size = .method ⟨number, params, results⟩ := by
    unfold kind
    rw [node_push, if_pos rfl]
  -- its entry among the methods of the contract
  have hc' := h₁.pending hc
  obtain ⟨⟨bases, methods, flattened⟩, hk, hresolves⟩ := hc'.isContract
  have hcovers' := h₁.covers h hcovers
  have hchanged : Changed (a.push copy).2 (a.copyMethod m c number).2 c
      { (a.push copy).2.node c with
        kind := .contract ⟨bases, methods.insert copy.name a.size, flattened⟩ } := by
    unfold kind at hkind
    unfold Arena.copyMethod
    simp only [Node.mapKind_eq, hkind]
    exact changed_kind (h₂.covers_lt hcovers') hk rfl
  have hparts : ∀ k, k ∈ (methods.insert copy.name a.size).nodes →
      k ∈ methods.nodes ∨ k = a.size := fun k hk => Registry.mem_nodes_insert hk
  have hchild : ∀ l, l ∈ Node.children { (a.push copy).2.node c with
      kind := .contract ⟨bases, methods.insert copy.name a.size, flattened⟩ } →
      l ∈ (a.push copy).2.children c ∨ l = a.size := by
    intro l hl
    unfold kind at hk
    unfold children
    unfold Node.children at hl ⊢
    rw [hk]
    simp only [NodeKind.parts, List.mem_append] at hl ⊢
    rcases hl with hl | hl | hl
    · exact Or.inl (Or.inl hl)
    · exact Or.inl (Or.inr (Or.inl hl))
    · exact (hparts l hl).imp (fun hl => Or.inr (Or.inr hl)) id
  have hedits : Edits scene (a.push copy).2 c { (a.push copy).2.node c with
      kind := .contract ⟨bases, methods.insert copy.name a.size, flattened⟩ } := by
    refine ⟨h₂.loose_of_home hc'.home, hcovers', rfl, rfl, by rw [hk]; rfl,
      by rw [hk]; exact ⟨_, rfl, rfl, id⟩, fun l hl => ?_, fun hlevel k hmem => ?_,
      fun decl e k hmem => ?_, fun decl e _ => by cases e; exact hresolves⟩
    · rcases Node.mem_links.1 hl with hl | hl | hl | hl
      · exact h₂.closed c l hcovers' (Node.mem_links.2 (Or.inl hl))
      · exact h₂.closed.script hcovers' hl
      · rcases hchild l hl with hl | rfl
        · exact h₂.closed.child hcovers' hl
        · exact hnew
      · cases hl
    · rcases hchild k hmem with hmem | rfl
      · exact h₂.plain c k hcovers' hlevel hmem
      · rw [hnewKind]
        exact (by decide : 5 < 6)
    · cases e
      rcases hparts k hmem with hmem | rfl
      · exact h₂.methods c k _ hcovers' hk hmem
      · refine ⟨by rw [method?_eq_some.2 hnewKind]; rfl, fun _ hlt => ?_⟩
        exact absurd hlt (Nat.not_lt.2 h.size_le)
  obtain ⟨h₃, h₄⟩ := h₂.edit hchanged hedits
  have hlt := h.covers_lt hm
  have hext := Extends.push a copy
  have hpushed : Copies scene a (a.push copy).2 := by
    refine ⟨h₁, fun n hn => by rw [hext.node_eq n hn], fun n decl hk => ?_, fun n decl hk => ?_,
      fun n hn hn' => ⟨m, ?_, h.source hm, ?_⟩⟩
    · unfold kind at *
      rw [hext.node_eq n (lt_size_of_kind (by unfold kind; rw [hk]; exact (by decide : 6 ≠ 1))), hk]
    · unfold kind at *
      rw [hext.node_eq n (lt_size_of_kind (by unfold kind; rw [hk]; exact (by decide : 6 ≠ 1))), hk]
    · exact Nat.lt_of_lt_of_le hlt hn
    · rw [size_push] at hn'
      have hn : n = a.size := by omega
      subst hn
      refine ⟨by rw [node_push, if_pos rfl, hext.node_eq m hlt], ⟨old, params, results⟩, _, ?_,
        hnewKind, rfl, rfl⟩
      unfold kind at *
      rw [hext.node_eq m hlt, hkind]
  refine ⟨trans_of (Copies scene) hpushed (.of_changed h₃ hchanged (Or.inr ?_)), h₄⟩
  rw [contract?_eq_some.2 hk]
  rfl

/-- The methods of contracts that can be copied. -/
def Copyable (scene : Scene) (a : Arena) (entries : List (String × NodeId)) : Prop :=
  ∀ entry ∈ entries, scene.Covers a entry.2 ∧ (a.method? entry.2).isSome

theorem Rearranges.copyable {entries : List (String × NodeId)} (h : Rearranges scene a b)
    (ha : Holds scene a) (he : scene.Copyable a entries) : scene.Copyable b entries :=
  fun entry hmem => ⟨h.covers ha (he entry hmem).1, h.method (he entry hmem).2⟩

theorem Holds.copyable (h : Holds scene a) (hn : scene.Covers a n) :
    scene.Copyable a (a.methodsOf n) := by
  intro entry hmem
  unfold methodsOf at hmem
  split at hmem
  · rename_i decl hd
    have hk := contract?_eq_some.1 hd
    have hnode : entry.2 ∈ decl.methods.nodes := List.mem_map_of_mem hmem
    refine ⟨h.closed.part hn ?_, (h.methods n entry.2 decl hn hk hnode).1⟩
    rw [hk]
    exact List.mem_append_right _ hnode
  · cases hmem

theorem leads_inheritMethod (offset : UInt16) (entry : String × NodeId) (h : Holds scene a)
    (hc : Pending scene a c) (he : scene.Copyable a [entry]) :
    Leads (Copies scene) (Link.inheritMethod add c offset entry) a
      fun _ b => Holds scene b := by
  obtain ⟨hcovers, hmethod⟩ := he entry (List.mem_singleton.2 rfl)
  cases hfind : a.findMethod? c entry.1 with
  | some existing =>
    have hrun : ∃ failure, Link.inheritMethod add c offset entry a = .error failure a := by
      simp only [Link.inheritMethod, hfind]
      exact ⟨_, rfl⟩
    obtain ⟨failure, hrun⟩ := hrun
    exact .of_error hrun (refl a)
  | none =>
    cases hadd : add (a.methodId entry.2) offset with
    | error failure =>
      have hrun : Link.inheritMethod add c offset entry a = .error failure a := by
        simp only [Link.inheritMethod, hfind, hadd]
      exact .of_error hrun (refl a)
    | ok number =>
      have hrun : Link.inheritMethod add c offset entry a =
          .ok () (a.copyMethod entry.2 c number).2 := by
        simp only [Link.inheritMethod, hfind, hadd]
      obtain ⟨hr, hb⟩ := h.copyMethod hc hcovers hmethod number
      exact .of_ok hrun hr hb

theorem leads_inheritEntries (add : Adder) (offset : UInt16) (entries : List (String × NodeId))
    (h : Holds scene a) (hc : Pending scene a c) (he : scene.Copyable a entries) :
    Leads (Copies scene) (entries.forM (Link.inheritMethod add c offset)) a
      fun _ b => Holds scene b := by
  refine (Leads.forM (I := fun rest b => Holds scene b ∧ Pending scene b c ∧
    scene.Copyable b rest) ?_ entries a ⟨h, hc, he⟩).mono fun _ _ _ hb => hb.1
  intro entry rest b hb
  obtain ⟨hh, hp, hrest⟩ := hb
  have hone : scene.Copyable b [entry] := fun x hx => hrest x (by
    rw [List.mem_singleton] at hx
    exact hx ▸ List.mem_cons_self ..)
  refine (leads_inheritMethod offset entry hh hp hone).mono fun _ d hr hd => ⟨hd, hr.pending hp, ?_⟩
  exact hr.copyable hh fun x hx => hrest x (List.mem_cons_of_mem _ hx)

theorem leads_inheritMethods : ∀ (bases : List NodeId) (offset : UInt16) (a : Arena),
    Holds scene a → Pending scene a c → (∀ base ∈ bases, scene.Covers a base) →
    Leads (Copies scene) (Link.inheritMethods add c offset bases) a fun _ b => Holds scene b
  | [], offset, a, h, _, _ => Leads.pure h
  | base :: rest, offset, a, h, hc, hb => by
    have hentries := leads_inheritEntries add offset (a.methodsOf base) h hc
      (h.copyable (hb base (List.mem_cons_self ..)))
    cases hstep : (a.methodsOf base).forM (Link.inheritMethod add c offset) a with
    | error failure b =>
      have hrun : Link.inheritMethods add c offset (base :: rest) a = .error failure b := by
        simp only [Link.inheritMethods, hstep]
      exact .of_error hrun (hentries.error hstep)
    | ok u b =>
      obtain ⟨hr, hh⟩ := hentries.ok hstep
      cases hadd : add offset (UInt16.ofNat (a.methodsOf base).length) with
      | error failure =>
        have hrun : Link.inheritMethods add c offset (base :: rest) a = .error failure b := by
          simp only [Link.inheritMethods, hstep, hadd]
        exact .of_error hrun hr
      | ok next =>
        have hrun : Link.inheritMethods add c offset (base :: rest) a =
            Link.inheritMethods add c next rest b := by
          simp only [Link.inheritMethods, hstep, hadd]
        exact .follow hrun hr (leads_inheritMethods rest next b hh (hr.pending hc) fun x hx =>
          hr.covers h (hb x (List.mem_cons_of_mem _ hx)))

theorem Holds.setFlattened (h : Holds scene a) (hc : Pending scene a c) :
    Copies scene a (a.setFlattened c) ∧ Holds scene (a.setFlattened c) ∧
      ∃ decl, (a.setFlattened c).kind c = .contract decl ∧ decl.flattened = true := by
  have hcovers : scene.Covers a c := Or.inr (Or.inl hc.home)
  obtain ⟨⟨bases, methods, flattened⟩, hk, hresolves⟩ := hc.isContract
  have hchanged : Changed a (a.setFlattened c) c
      { a.node c with kind := .contract ⟨bases, methods, true⟩ } :=
    changed_kind (h.covers_lt hcovers) hk rfl
  have hchildren : Node.children { a.node c with kind := .contract ⟨bases, methods, true⟩ } =
      a.children c := by
    unfold kind at hk
    unfold children Node.children
    rw [hk]
    rfl
  obtain ⟨hr, hb⟩ := h.edit hchanged ⟨h.loose_of_home hc.home, hcovers, rfl, rfl,
    by rw [hk]; rfl, by rw [hk]; exact ⟨_, rfl, rfl, fun _ => rfl⟩, fun l hl => by
      rw [Node.mem_links, hchildren] at hl
      unfold kind at hk
      refine h.closed c l hcovers (Node.mem_links.2 ?_)
      rw [hk]
      exact hl, fun hlevel k hmem => h.plain c k hcovers hlevel (hchildren ▸ hmem),
    fun decl e k hmem => by
      cases e
      exact h.methods c k _ hcovers hk hmem, fun decl e _ => by
      cases e
      exact hresolves⟩
  refine ⟨.of_changed hr hchanged (Or.inr ?_), hb, ⟨bases, methods, true⟩,
    congrArg Node.kind hchanged.node_self, rfl⟩
  rw [contract?_eq_some.2 hk]
  rfl

/-- The contract is flattened, if it is one. -/
def Done (a : Arena) (t : NodeId) : Prop :=
  ∀ decl, a.kind t = .contract decl → decl.flattened = true

theorem leads_inheritAll {bases : List NodeId} (h : Holds scene a) (hc : Pending scene a c)
    (hb : ∀ base ∈ bases, scene.Covers a base) :
    Leads (Copies scene) (Link.inheritAll add c bases) a
      fun _ b => Holds scene b ∧ Done b c := by
  by_cases hlarge : 65535 < a.methodTotal bases + (a.methodsOf c).length
  · have hrun : Link.inheritAll add c bases a = .error ⟨.tooManyMethods, a.position c⟩ a := by
      simp only [Link.inheritAll, hlarge, if_true]
    exact .of_error hrun (refl a)
  · have hrun : Link.inheritAll add c bases a = (do
        Link.shiftMethods add (UInt16.ofNat (a.methodTotal bases)) ((a.methodsOf c).map (·.2))
        Link.inheritMethods add c 0 bases
        modify fun arena => arena.setFlattened c : Link Unit) a := by
      simp only [Link.inheritAll, hlarge, if_false]
    refine .follow hrun (refl a) ?_
    have hcovers : scene.Covers a c := Or.inr (Or.inl hc.home)
    refine (leads_shiftMethods _ _ a h fun m hm => ?_).bind fun _ b₁ hr₁ h₁ => ?_
    · obtain ⟨entry, hentry, rfl⟩ := List.mem_map.1 hm
      obtain ⟨h₁, h₂⟩ := h.copyable hcovers entry hentry
      refine ⟨h₁, ?_, h₂⟩
      obtain ⟨decl, hd, -⟩ := hc.isContract
      unfold methodsOf at hentry
      rw [contract?_eq_some.2 hd] at hentry
      exact (h.methods c entry.2 decl hcovers hd (List.mem_map_of_mem hentry)).2 hc.home
    · have hc₁ := hr₁.pending hc
      refine (leads_inheritMethods bases 0 b₁ h₁ hc₁ fun x hx => hr₁.covers h (hb x hx)).bind
        fun _ b₂ hr₂ h₂ => ?_
      obtain ⟨hr₃, h₃, decl, hd, hf⟩ := h₂.setFlattened (hr₂.pending hc₁)
      refine .of_ok rfl hr₃ ⟨h₃, fun decl' hd' => ?_⟩
      rw [hd] at hd'
      cases hd'
      exact hf

/-! ## All contracts -/

theorem Rearranges.done (h : Rearranges scene a b) (ht : t < a.size) (hd : Done a t) :
    Done b t := by
  intro decl hk
  have hs := h.shape t ht
  rw [hk] at hs
  obtain ⟨decl', ha⟩ := NodeKind.contract_of_ctorIdx hs.symm
  have hkept := h.kinds t ht
  rw [ha, hk] at hkept
  obtain ⟨decl'', he, -, hf⟩ := hkept
  cases he
  exact hf (hd decl' ha)

/-- Where all bases have targets they are bound to contracts. -/
theorem resolves_of_baseTargets {references targets : List NodeId}
    (h : a.baseTargets references = .ok targets) : a.Resolves references := by
  rcases Link.baseTargets_cases (a := a) references with
    ⟨targets', hok, hbound, hcontract⟩ | ⟨failure, herror, -⟩
  · intro base hbase
    have hmem : a.boundTo base ∈ targets'.map some := hbound ▸ List.mem_map_of_mem hbase
    obtain ⟨t, ht, hto⟩ := List.mem_map.1 hmem
    unfold boundTo at hto
    obtain ⟨⟨path, target⟩, hr, htarget⟩ := Option.bind_eq_some_iff.1 hto.symm
    have he : target = some t := htarget
    subst he
    exact ⟨path, t, reference?_eq_some.1 hr, hcontract t ht⟩
  · rw [h] at herror
    cases herror

/-- The targets of the bases of a contract are types of packages. -/
theorem Holds.aimed_of_baseTargets {decl : Contract} {bases : List NodeId} (h : Holds scene a)
    (hc : scene.Covers a c) (hk : a.kind c = .contract decl)
    (ht : a.baseTargets decl.bases.toList = .ok bases) : ∀ base ∈ bases, scene.Aimed a base := by
  rcases Link.baseTargets_cases (a := a) decl.bases.toList with
    ⟨targets, hok, hbound, hcontract⟩ | ⟨failure, herror, -⟩
  · rw [ht] at hok
    cases hok
    intro base hbase
    have hmem : some base ∈ decl.bases.toList.map a.boundTo := by
      rw [hbound]
      exact List.mem_map_of_mem hbase
    obtain ⟨reference, href, hto⟩ := List.mem_map.1 hmem
    unfold boundTo at hto
    obtain ⟨⟨path, target⟩, hr, htarget⟩ := Option.bind_eq_some_iff.1 hto
    have ht : target = some base := htarget
    subst ht
    obtain ⟨decl', hd'⟩ := Option.isSome_iff_exists.1 (hcontract base hbase)
    refine h.aimed (h.closed.part hc ?_) (reference?_eq_some.1 hr) (contract?_eq_some.1 hd')
    rw [hk]
    exact List.mem_append_left _ href
  · rw [ht] at herror
    cases herror

/-- Flattening one contract and those it inherits from. The contracts that wait are pairwise
different nodes of the arena that the pass started from, so the fuel is enough. -/
theorem leads_flatten : ∀ (fuel : Nat) (active : List NodeId) (c : Nat) (a : Arena),
    Holds scene a → scene.Aimed a c → active.Nodup → (∀ x ∈ active, x < scene.start.size) →
    scene.start.size < fuel + active.length →
    Leads (Copies scene) (Link.flatten add fuel active c) a
      fun _ b => Holds scene b ∧ Done b c
  | 0, active, c, a, _, _, hnodup, hactive, hfuel => by
    have hlength := Link.length_active_le hnodup hactive
    omega
  | fuel + 1, active, c, a, h, hc, hnodup, hactive, hfuel => by
    cases hd : a.contract? c with
    | none =>
      refine .of_ok (Link.flatten_of_none hd) (refl a) ⟨h, fun decl hk => ?_⟩
      rw [contract?_eq_some.2 hk] at hd
      cases hd
    | some decl =>
      have hk := contract?_eq_some.1 hd
      cases hf : decl.flattened with
      | true =>
        refine .of_ok (Link.flatten_of_flattened hd hf) (refl a) ⟨h, fun decl' hk' => ?_⟩
        rw [hk] at hk'
        cases hk'
        exact hf
      | false =>
        by_cases hw : c ∈ active
        · exact .of_error (Link.flatten_of_waiting hd hf hw) (refl a)
        · cases ht : a.baseTargets decl.bases.toList with
          | error failure => exact .of_error (Link.flatten_of_unbound hd hf hw ht) (refl a)
          | ok bases =>
            obtain ⟨hlt, hhome⟩ := h.home_of_aimed hc hk hf
            have hpending : Pending scene a c := ⟨hhome, decl, hk, resolves_of_baseTargets ht⟩
            have haimed := h.aimed_of_baseTargets (h.covers_of_aimed hc) hk ht
            have hnodup' : (active ++ [c]).Nodup := by
              rw [List.nodup_append]
              refine ⟨hnodup, List.nodup_singleton c, fun x hx y hy e => hw ?_⟩
              rw [List.mem_singleton] at hy
              rwa [← hy, ← e]
            have hactive' : ∀ x ∈ active ++ [c], x < scene.start.size := by
              intro x hx
              rcases List.mem_append.1 hx with hx | hx
              · exact hactive x hx
              · rw [List.mem_singleton] at hx
                exact hx ▸ hlt
            refine .follow (Link.flatten_of_bound hd hf hw ht) (refl a) ?_
            refine (Leads.forM (I := fun rest b => Holds scene b ∧ Pending scene b c ∧
              (∀ base ∈ bases, scene.Aimed b base) ∧ ∀ base ∈ rest, base ∈ bases) ?_ bases a
              ⟨h, hpending, haimed, fun _ hx => hx⟩).bind fun _ b _ hb => ?_
            · intro base rest b hb
              obtain ⟨hh, hp, ha, hrest⟩ := hb
              refine (leads_flatten fuel (active ++ [c]) base b hh
                (ha base (hrest base (List.mem_cons_self ..))) hnodup' hactive' (by
                  rw [List.length_append, List.length_singleton]
                  omega)).mono fun _ d hr hd => ?_
              exact ⟨hd.1, hr.pending hp, fun x hx => hr.aimed hh (ha x hx),
                fun x hx => hrest x (List.mem_cons_of_mem _ hx)⟩
            · exact leads_inheritAll hb.1 hb.2.1 fun x hx => hb.1.covers_of_aimed (hb.2.2.1 x hx)

/-- The third pass stays within the package, and flattens all its contracts. -/
theorem leads_flattenContracts (h : Holds scene a) :
    Leads (Copies scene) (Link.flattenContractsWith add scene.package) a
      fun _ b => Holds scene b ∧ ∀ t ∈ b.typesOf scene.package, Done b t := by
  obtain ⟨decl, hd⟩ := h.isPackage
  have htypes := Arena.typesOf_eq hd
  have hrun : Link.flattenContractsWith add scene.package a =
      decl.types.nodes.forM (Link.flatten add (a.size + 1) []) a := by
    simp only [Link.flattenContractsWith, package?_eq_some.2 hd]
  refine .follow hrun (refl a) ?_
  refine (Leads.forM (I := fun rest b => Holds scene b ∧ b.typesOf scene.package = decl.types.nodes ∧
    (∀ t ∈ rest, t ∈ decl.types.nodes) ∧ ∀ t ∈ decl.types.nodes, t ∈ rest ∨ Done b t) ?_ _ a
    ⟨h, htypes, fun _ ht => ht, fun _ ht => Or.inl ht⟩).mono fun _ b _ hb => ⟨hb.1, fun t ht => ?_⟩
  · intro t rest b hb
    obtain ⟨hh, htypes, hrest, hdone⟩ := hb
    have ht : scene.Aimed b t :=
      ⟨scene.package, hh.covers_package, htypes ▸ hrest t (List.mem_cons_self ..)⟩
    refine (leads_flatten (a.size + 1) [] t b hh ht List.nodup_nil (fun x hx => by cases hx)
      (Nat.lt_succ_of_le h.size_le)).mono fun _ d hr hd => ⟨hd.1, ?_, ?_, fun x hmem => ?_⟩
    · rw [hr.typesOf_eq (hh.covers_lt hh.covers_package) hh.isPackage, htypes]
    · exact fun x hx => hrest x (List.mem_cons_of_mem _ hx)
    · have hx' : scene.Aimed b x := ⟨scene.package, hh.covers_package, htypes ▸ hmem⟩
      rcases hdone x hmem with hx | hx
      · rcases List.mem_cons.1 hx with rfl | hx
        · exact Or.inr hd.2
        · exact Or.inl hx
      · exact Or.inr (hr.done (hh.covers_lt (hh.covers_of_aimed hx')) hx)
  · rw [hb.2.1] at ht
    exact (hb.2.2.2 t ht).resolve_left fun e => by cases e

end Scene

end SchemaLang
