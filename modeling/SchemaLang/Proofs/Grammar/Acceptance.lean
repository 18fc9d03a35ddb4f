import SchemaLang.Proofs.Grammar.Lexing
import SchemaLang.Proofs.Grammar.Members
import SchemaLang.Proofs.Grammar.Scripts

/-!
# A script is accepted exactly if it is derived

The declarations of a script and its imports, on top of their members. What a script may still say
depends on the aliases that it has bound and the types that its package has (`Scope`).
-/

namespace SchemaLang.Parse

open Arena Phrase NodeKind

variable {σ β I : Type} {cx : ReadingContext σ} {r : Reading σ} {ks : List TokenKind}

/-- The aliases of the script and the types of its package. -/
structure Scope (cx : ReadingContext σ) (package : Nat) (aliases types : List String)
    (r : Reading σ) : Prop where
  script : r.arena.HasKind cx.script (ImportsAre package aliases)
  package : r.arena.HasKind package (TypesAre types)
  aliases_nodup : aliases.Nodup
  types_nodup : types.Nodup

variable {package : Nat} {aliases types : List String}

theorem Scope.keep {touched : List NodeId} {r' : Reading σ} (h : Scope cx package aliases types r)
    (hk : r.arena.Keeps touched r'.arena) (hs : cx.script ∉ touched) (hp : package ∉ touched) :
    Scope cx package aliases types r' :=
  ⟨h.script.keep hk hs, h.package.keep hk hp, h.aliases_nodup, h.types_nodup⟩

theorem Scope.retake (h : Scope cx package aliases types r) (feed : Feed)
    (comments : List Comment) : Scope cx package aliases types (retake r feed comments) :=
  h.keep (Keeps.refl [] _) List.not_mem_nil List.not_mem_nil

theorem Scope.ne (h : Scope cx package aliases types r) : package ≠ cx.script := by
  rintro rfl
  obtain ⟨-, decl, hscript, -⟩ := h.script
  obtain ⟨-, decl', hpackage, -⟩ := h.package
  rw [hscript] at hpackage
  cases hpackage

/-- One more alias is bound. -/
theorem Scope.bound {name : String} {r' : Reading σ} (h : Scope cx package aliases types r)
    (hk : r.arena.Keeps [cx.script] r'.arena)
    (hs : r'.arena.HasKind cx.script (ImportsAre package (aliases ++ [name])))
    (hnew : name ∉ aliases) : Scope cx package (aliases ++ [name]) types r' :=
  ⟨hs, h.package.keep hk (by simpa using h.ne), nodup_snoc.2 ⟨h.aliases_nodup, hnew⟩,
    h.types_nodup⟩

/-- The scope, where everything but the script and its package is as it was in an earlier arena, and the
package has the types that it had. -/
structure ScopeSince (a : Arena) (cx : ReadingContext σ) (package : Nat) (aliases types : List String)
    (r : Reading σ) : Prop where
  scope : Scope cx package aliases types r
  keeps : a.Keeps [cx.script, package] r.arena
  finds : ∀ name type, a.Finds package name type → r.arena.Finds package name type

theorem Scope.since (h : Scope cx package aliases types r) :
    ScopeSince r.arena cx package aliases types r :=
  ⟨h, Keeps.refl _ _, fun _ _ h => h⟩

theorem ScopeSince.quiet {a : Arena} {r' : Reading σ} (h : ScopeSince a cx package aliases types r)
    (hk : r.arena.Keeps [] r'.arena) : ScopeSince a cx package aliases types r' :=
  ⟨h.scope.keep hk List.not_mem_nil List.not_mem_nil, h.keeps.quiet hk,
    fun name type hn => (h.finds name type hn).keep hk List.not_mem_nil⟩

/-- One more type is found in the package. The attributes that waited are on it, and so are its marks. -/
structure Declares (a : Arena) (waiting : List NodeId) (marks : List Attr) (cx : ReadingContext σ)
    (package : Nat) (aliases types : List String) (name : String) (r : Reading σ) : Prop where
  since : ScopeSince a cx package aliases (types ++ [name]) r
  found : ∃ type, type < r.arena.size ∧ r.arena.Finds package name type ∧
    (∀ n ∈ waiting, n ∈ (r.arena.node type).attrs) ∧ r.arena.Wears type marks

/-- Attributes are not touched by what touches the script and its package. -/
theorem Scope.isAttr {attr : Attr} {n : NodeId} {r' : Reading σ} (h : Scope cx package aliases types r)
    (hk : r.arena.Keeps [cx.script, package] r'.arena) (hattr : r.arena.IsAttr attr n) :
    r'.arena.IsAttr attr n := by
  refine hattr.keep hk fun m hm => ?_
  obtain ⟨-, decl, hscript, -⟩ := h.script
  obtain ⟨-, decl', hpackage, -⟩ := h.package
  rcases List.mem_cons.1 hm with rfl | hm
  · rw [hscript]
    exact (by decide : 4 ≤ 7)
  · rw [List.mem_singleton.1 hm, hpackage]
    exact (by decide : 4 ≤ 8)

/-! ## Declarations -/

/-- A declaration is made and entered under its name, where the name is new. What touches nothing but its
node leaves the scope. -/
theorem Reads.newType_bind {a : Arena} {T : I → List TokenKind} {F : I → TokenKind → Prop} {G : I → Prop}
    {R : I → β → Reading σ → Prop} {name : String} {position : Position} {kind : NodeKind}
    {f : NodeId → Parse σ β} (hr : Faces cx r ks) (h : ScopeSince a cx package aliases types r)
    (hf : ∀ (node : Nat) r₁, Faces cx r₁ ks → r₁.arena.HasKind node (· = kind) →
      (∀ marks r', r₁.arena.Keeps [node] r'.arena → r'.arena.Wears node marks →
        Declares a r.attrs marks cx package aliases types name r') → Reads (f node) r₁ ks T F G R) :
    Reads (do
      let node ← Parse.build fun arena => arena.alloc name (some cx.script) position kind
      declare cx name position node
      f node) r ks T F (fun i => (types ++ [name]).Nodup ∧ G i) R := by
  have hscript : cx.script ≠ r.arena.size := Nat.ne_of_lt h.scope.script.1
  have hpackage : package ≠ r.arena.size := Nat.ne_of_lt h.scope.package.1
  have hkeeps := Keeps.alloc r.arena name (some cx.script) position kind
  have henters := enters_declareType (h.scope.script.keep hkeeps List.not_mem_nil)
    (h.scope.package.keep hkeeps List.not_mem_nil) r.arena.size
  rw [name_alloc_self] at henters
  unfold declare
  simp only [bind_assoc]
  apply Reads.convert
  · apply Reads.build_bind hr
    intro hr₁
    apply Reads.unique_bind hr₁ henters
    rintro _ b hnew ⟨hk, hs, hp, hfound, hfinds⟩ hr₂
    apply Reads.attachComments_bind hr₂
    intro r₃ hr₃ hk₃ hattrs₃
    apply Reads.attachAttrs_bind hr₃
    intro r₄ hr₄ hk₄ hattrs₄
    have hk' := hk₃.quiet hk₄
    have hnode : r₃.arena.HasKind r.arena.size (· = kind) := by
      refine ((hasKind_alloc r.arena name (some cx.script) position kind).keep hk ?_).keep hk₃
        List.not_mem_nil
      simp [hscript.symm, hpackage.symm]
    have hlater : ∀ {r' : Reading σ} {m : Nat} {P : NodeKind → Prop}, r₄.arena.Keeps [r.arena.size] r'.arena →
        m ≠ r.arena.size → b.HasKind m P → r'.arena.HasKind m P := fun hr' hm hp =>
      (hp.keep hk' List.not_mem_nil).keep hr' (by simpa using hm)
    refine hf r.arena.size r₄ hr₄ (hnode.keep hk₄ List.not_mem_nil) fun marks r' hr' hmarks => ⟨⟨⟨hlater hr'
      hscript hs, hlater hr' hpackage hp, h.scope.aliases_nodup, nodup_snoc.2 ⟨h.scope.types_nodup, hnew⟩⟩,
      ?_, ?_⟩, r.arena.size, ?_, hlater hr' hpackage hfound, ?_, hmarks⟩
    · refine (((h.keeps.quiet hkeeps).trans hk fun n hn _ => ?_).quiet hk').above hr' h.keeps.size_le
      simpa [or_comm] using hn
    · exact fun other found hother => hlater hr' hpackage
        (hfinds other found ((h.finds other found hother).keep hkeeps List.not_mem_nil))
    · exact Nat.lt_of_lt_of_le hnode.1 (Nat.le_trans hk₄.size_le hr'.size_le)
    · intro n hn
      have hn₃ : n ∈ r₃.attrs := by rwa [hattrs₃]
      exact hr'.attrs_mem _ (Nat.lt_of_lt_of_le hnode.1 hk₄.size_le) n (hattrs₄ hnode.1 n hn₃)
  · exact fun i hG => ⟨i, rfl, ⟨nodup_snoc.2 ⟨h.scope.types_nodup, hG.1⟩, hG.2⟩, fun _ _ h => h⟩
  · exact fun i k rest _ hF hG => ⟨i, rfl, hF, ⟨(nodup_snoc.1 hG.1).2, hG.2⟩, fun _ _ h => h⟩

theorem reads_enumDeclaration {a : Arena} (hr : Faces cx r ks)
    (h : ScopeSince a cx package aliases types r) :
    Reads (enumDeclaration cx) r ks
      (fun x : String × Option {word : Keyword // word.enumBase.isSome} × Chain Value =>
        .ident x.1 :: (storageTokens x.2.1 ++
          .char '\x7b' :: (x.2.2.tokens ',' Value.tokens ++ [.char '\x7d'])))
      (fun _ _ => True)
      (fun x => (types ++ [x.1]).Nodup ∧ (Decl.enum x.1 x.2.1 x.2.2).WellFormed)
      fun x _ r' => Declares a r.attrs [] cx package aliases types x.1 r' := by
  apply Reads.convert
  · apply Reads.expectIdent_bind hr
    intro name position feed₁ comments₁ rest₁ _ hr₁
    apply Reads.bind hr₁ ((reads_enumBase (a := r.arena) hr₁ rfl).also (quiet_enumBase.keepsWaiting _))
    · rintro word base r₂ rest₂ _ hr₂ _ ⟨⟨rfl, ha₂⟩, hattrs₂⟩
      have h₂ : ScopeSince a cx package aliases types r₂ := h.quiet (ha₂ ▸ Keeps.refl [] _)
      apply Reads.newType_bind hr₂ h₂
      rw [hattrs₂]
      intro enum r₃ hr₃ hkind h₃
      apply Reads.expectChar_bind hr₃
      intro feed₄ comments₄ rest₄ _ hr₄
      apply Reads.bind hr₄ (Reads.chain (F := fun _ => True) (fun x : Value => [x.name])
        (Value.WellFormed (storage word)) List.Nodup (Valued r₃.arena enum)
        (fun names r ks hi hr => reads_enumValue word hr hi)
        (fun xs ys h => (List.nodup_append.1 h).1) [] ⟨Keeps.refl .., hkind.mono ?_, List.nodup_nil⟩
        hr₄)
      · intro values _ r₅ rest₅ _ hr₅ _ hi
        exact Reads.expectChar (F := fun _ => True)
          (Q := Declares a r.attrs [] cx package aliases types name) hr₅ fun _ _ =>
            h₃ [] _ hi.keeps (List.forall_mem_nil _)
      · exact fun _ _ _ _ => ⟨trivial, by simp⟩
      · rintro _ rfl
        exact ⟨_, rfl, rfl⟩
    · exact fun _ _ _ _ => stops_char (by simp)
  · rintro ⟨name, word, values, _⟩ ⟨-, hnew, ⟨hnodup, hvalues⟩, -⟩
    exact ⟨(name, word, values), by simp, ⟨hnew, hvalues,
      by simpa [List.map_eq_flatMap] using hnodup⟩, fun _ _ h => h⟩
  · rintro ⟨name, word, values⟩ k rest _ _ ⟨hnew, hvalues, hnodup⟩
    exact ⟨(name, word, values, ()), by simp, trivial, ⟨trivial, hnew,
      ⟨by simpa [List.map_eq_flatMap] using hnodup, hvalues⟩, trivial⟩, fun _ _ h => h⟩

/-- The struct marker is always put on. -/
theorem Reads.markStruct_bind {T : I → List TokenKind} {F : I → TokenKind → Prop} {G : I → Prop}
    {R : I → β → Reading σ → Prop} {table : Nat} {position : Position} {f : Unit → Parse σ β}
    (hr : Faces cx r ks) (ht : table < r.arena.size)
    (hf : ∀ r₁, Faces cx r₁ ks → r.arena.Keeps [] r₁.arena →
      r₁.arena.Wears table [⟨.builtin cx.package Prelude.structMarker, none⟩] → Reads (f ()) r₁ ks T F G R) :
    Reads (markStruct cx table position >>= f) r ks T F G R := by
  unfold markStruct builtinRef
  simp only [bind_assoc, ← Ref.items_builtin]
  apply Reads.build_bind hr
  intro hr₁
  apply Reads.build_bind hr₁
  intro hr₂
  apply Reads.build_bind hr₂
  intro hr₃
  obtain ⟨hk, hmark⟩ := wears_addAttr ht (.builtin cx.package Prelude.structMarker) cx.script position
  exact hf _ hr₃ hk hmark

theorem reads_tableDeclaration {a : Arena} (isStruct : Bool) (hr : Faces cx r ks)
    (h : ScopeSince a cx package aliases types r) :
    Reads (tableDeclaration cx isStruct) r ks
      (fun x : String × List Field × List Attr => .ident x.1 :: .char '\x7b' ::
        (x.2.1.flatMap Field.tokens ++ (x.2.2.flatMap Attr.tokens ++ [.char '\x7d'])))
      (fun _ _ => True)
      (fun x => (types ++ [x.1]).Nodup ∧ (Decl.table isStruct x.1 x.2.1 x.2.2).WellFormed)
      fun x _ r' => Declares a r.attrs (tableMarks cx.package isStruct) cx package aliases types x.1 r' := by
  apply Reads.convert
  · apply Reads.expectIdent_bind hr
    intro name position feed₁ comments₁ rest₁ _ hr₁
    apply Reads.newType_bind hr₁ (h.quiet (Keeps.refl ..))
    intro table r₂ hr₂ hkind h₂
    have hfields : r₂.arena.FieldsAre table [] :=
      ⟨hkind.1, _, hkind.2, by simp, rfl⟩
    -- what comes after the marker, which a struct has
    have hmembers : ∀ r₃, Faces cx r₃ rest₁ → r₂.arena.Keeps [] r₃.arena →
        r₃.arena.Wears table (tableMarks cx.package isStruct) → Reads (do
          expectChar '\x7b'
          repeatWhile (field cx table) cx.budget
          expectChar '\x7d') r₃ rest₁
          (fun x : List Field × List Attr => .char '\x7b' ::
            (x.1.flatMap Field.tokens ++ (x.2.flatMap Attr.tokens ++ [.char '\x7d'])))
          (fun _ _ => True) (fun x => Listable (x.1.map Field.name) ∧ (∀ y ∈ x.1, y.WellFormed) ∧
            ∀ attr ∈ x.2, attr.WellFormed)
          fun _ _ r' => Declares a r.attrs (tableMarks cx.package isStruct) cx package aliases types
            name r' := by
      intro r₃ hr₃ hk₃ hmarks
      have htable := hkind.keep hk₃ List.not_mem_nil
      have hlevel : 4 ≤ (r₃.arena.kind table).level := by
        rw [show r₃.arena.kind table = _ from htable.2]
        exact (by decide : 4 ≤ 6)
      apply Reads.expectChar_bind hr₃
      intro feed₄ comments₄ rest₄ _ hr₄
      refine (reads_members (fun _ _ _ hi hr => reads_field hr hi) (fun x => ?_) hr₄
        ⟨Keeps.refl .., hfields.keep hk₃ List.not_mem_nil, List.nodup_nil, by simp⟩).mono
        fun _ _ _ _ hk => h₂ _ _ (((Keeps.refl [table] _).quiet hk₃).trans hk fun _ hn _ => hn)
          (hmarks.mono htable.1 hk fun _ _ h => h.keep hk (List.forall_mem_singleton.2 hlevel))
      have hmem : TokenKind.char ';' ∈ x.tokens := by simp [Field.tokens]
      exact TokenKind.count_pos hmem TokenKind.noConfusion
    dsimp only
    by_cases hstruct : isStruct = true
    · rw [if_pos hstruct]
      exact Reads.markStruct_bind hr₂ hkind.1 fun r₃ hr₃ hk₃ hmark =>
        hmembers r₃ hr₃ hk₃ (by rwa [tableMarks, if_pos hstruct])
    · rw [if_neg hstruct]
      refine hmembers r₂ hr₂ (Keeps.refl ..) ?_
      rw [tableMarks, if_neg hstruct]
      exact List.forall_mem_nil _
  · rintro ⟨name, fields, trailing⟩ ⟨hnew, hallowed, hfields, htrailing⟩
    exact ⟨(name, fields, trailing), rfl, ⟨hnew, hfields, htrailing, hallowed.nodup,
      by simpa using hallowed.length_le⟩, fun _ _ h => h⟩
  · rintro ⟨name, fields, trailing⟩ k rest _ _ ⟨hnew, hfields, htrailing, hnodup, hlength⟩
    exact ⟨(name, fields, trailing), rfl, trivial, ⟨hnew, ⟨hnodup, by simpa using hlength⟩,
      hfields, htrailing⟩, fun _ _ h => h⟩

theorem reads_contractDeclaration {a : Arena} (hr : Faces cx r ks)
    (h : ScopeSince a cx package aliases types r) :
    Reads (contractDeclaration cx) r ks
      (fun x : String × Option (Chain Ref) × List Phrase.Method × List Attr =>
        .ident x.1 :: (baseTokens x.2.1 ++ .char '\x7b' :: (x.2.2.1.flatMap Phrase.Method.tokens ++
          (x.2.2.2.flatMap Attr.tokens ++ [.char '\x7d']))))
      (fun _ _ => True)
      (fun x => (types ++ [x.1]).Nodup ∧
        (Decl.contract x.1 x.2.1 x.2.2.1 x.2.2.2).WellFormed)
      fun x _ r' => Declares a r.attrs [] cx package aliases types x.1 r' := by
  apply Reads.convert
  · apply Reads.expectIdent_bind hr
    intro name position feed₁ comments₁ rest₁ _ hr₁
    apply Reads.newType_bind hr₁ (h.quiet (Keeps.refl ..))
    intro contract r₂ hr₂ hkind h₂
    have hbases : r₂.arena.BasesAre contract [] :=
      ⟨hkind.1, _, hkind.2, ⟨by simp, rfl⟩, rfl⟩
    -- what comes after the bases
    have hmembers : ∀ r₃ rest₃, Faces cx r₃ rest₃ → r₂.arena.Keeps [contract] r₃.arena →
        r₃.arena.HasKind contract (MethodsAre []) →
        Reads (do
          expectChar '\x7b'
          repeatWhile (method cx contract) cx.budget
          expectChar '\x7d') r₃ rest₃
          (fun x : List Phrase.Method × List Attr => .char '\x7b' ::
            (x.1.flatMap Phrase.Method.tokens ++ (x.2.flatMap Attr.tokens ++ [.char '\x7d'])))
          (fun _ _ => True) (fun x => Listable (x.1.map Phrase.Method.name) ∧
            (∀ y ∈ x.1, y.WellFormed) ∧ ∀ attr ∈ x.2, attr.WellFormed)
          fun _ _ r' => Declares a r.attrs [] cx package aliases types name r' := by
      intro r₃ rest₃ hr₃ hk₃ hmethods
      apply Reads.expectChar_bind hr₃
      intro feed₄ comments₄ rest₄ _ hr₄
      refine (reads_members (fun _ _ _ hi hr => reads_method hr hi) (fun x => ?_) hr₄
        ⟨Keeps.refl .., hmethods, List.nodup_nil, by simp⟩).mono
        fun _ _ _ _ hk => h₂ [] _ (hk₃.trans hk fun _ hn _ => hn) (List.forall_mem_nil _)
      have hmem : TokenKind.char ';' ∈ x.tokens := by simp [Phrase.Method.tokens]
      exact TokenKind.count_pos hmem TokenKind.noConfusion
    apply Reads.matchChar_bind hr₂
    · intro feed₃ comments₃ rest₃ _ hr₃
      dsimp only
      rw [if_pos rfl]
      apply Reads.bind hr₃ (Reads.chain (F := Stops ['.']) (fun ref => [Ref.dotted ref])
        (fun _ => True) List.Nodup
        (Listing r₂.arena contract (fun b names => b.BasesAre contract names) List.Nodup)
        (fun _ _ _ hi hr => reads_baseContract hr hi) (fun xs ys h => (List.nodup_append.1 h).1) []
        ⟨Keeps.refl .., hbases, List.nodup_nil⟩ hr₃)
      · intro bases _ r₄ rest₄ _ hr₄ _ hi
        apply Reads.expectChar_bind hr₄
        intro feed₅ comments₅ rest₅ _ hr₅
        obtain ⟨hlt, decl, hdecl, -, hmethods⟩ := hi.lists
        exact hmembers _ rest₅ hr₅ hi.keeps ⟨hlt, decl, hdecl, hmethods⟩
      · exact fun _ _ _ _ => ⟨stops_char (by simp), by simp⟩
    · intro feed₃ comments₃ hr₃
      dsimp only
      rw [if_neg Bool.false_ne_true]
      exact hmembers _ rest₁ hr₃ (Keeps.refl ..) (hkind.mono (by rintro _ rfl; exact ⟨_, rfl, rfl⟩))
  · rintro ⟨name, ⟨bases, methods, trailing⟩ | ⟨methods, trailing⟩⟩ ⟨hnew, hG⟩
    · obtain ⟨⟨hbases, -⟩, hallowed, hmethods, htrailing⟩ := hG
      exact ⟨(name, some bases, methods, trailing), by simp [baseTokens],
        ⟨hnew, by simpa [List.map_eq_flatMap] using hbases, hmethods, htrailing, hallowed.nodup,
          by simpa using hallowed.length_le⟩, fun _ _ h => h⟩
    · obtain ⟨hallowed, hmethods, htrailing⟩ := hG
      exact ⟨(name, none, methods, trailing), by simp [baseTokens],
        ⟨hnew, by simp, hmethods, htrailing, hallowed.nodup, by simpa using hallowed.length_le⟩,
        fun _ _ h => h⟩
  · rintro ⟨name, bases, methods, trailing⟩ k rest _ _ ⟨hnew, hbases, hmethods, htrailing, hnodup,
      hlength⟩
    have hallowed : Listable (methods.map Phrase.Method.name) := ⟨hnodup, by simpa using hlength⟩
    cases bases with
    | none =>
      exact ⟨(name, .inr (methods, trailing)), by simp [baseTokens],
        ⟨trivial, by simp⟩, ⟨hnew, hallowed, hmethods, htrailing⟩, fun _ _ h => h⟩
    | some bases =>
      exact ⟨(name, .inl (bases, methods, trailing)), by simp [baseTokens], trivial,
        ⟨hnew, ⟨by simpa [List.map_eq_flatMap] using hbases bases rfl, fun _ _ => trivial⟩,
          hallowed, hmethods, htrailing⟩, fun _ _ h => h⟩

/-- The keyword of a declaration. -/
def keyword : Decl → Keyword
  | .enum .. => .enum
  | .table isStruct .. => if isStruct then .struct else .table
  | .contract .. => .contract

/-- What is declared under a keyword that has been taken. -/
theorem reads_declared {X : Type} {T : X → List TokenKind} {word : Keyword} {m : Parse σ Unit}
    {rest : List TokenKind} {name : X → String} {P : X → Prop} {Q : Decl → Reading σ → Prop}
    {E : Unit → Bool → Reading σ → Prop} (decl : X → Decl)
    (hm : Reads m r rest T (fun _ _ => True) (fun x => (types ++ [name x]).Nodup ∧ P x)
      fun x _ => Q (decl x))
    (hdecl : ∀ x, (decl x).tokens = .keyword word :: T x ∧ (decl x).name = name x ∧
      ((decl x).WellFormed ↔ P x))
    (hall : ∀ d : Decl, keyword d = word → ∃ x, decl x = d) :
    Reads (do
      m
      pure true) r (.keyword word :: rest) (Sum.elim Decl.tokens fun _ : Unit => [])
      (Sum.elim (fun _ _ => True) fun _ k => k = .eof)
      (Sum.elim (fun d => (types ++ [d.name]).Nodup ∧ d.WellFormed) fun _ => True)
      (Sum.elim (fun d more r' => more = true ∧ Q d r') E) := by
  refine Reads.prepend [.keyword word] (hm.finish (R := fun x more r' => more = true ∧ Q (decl x) r')
    fun x _ r₁ hq => ⟨true, r₁, rfl, rfl, rfl, hq⟩) ?_ ?_
  · intro x hG
    obtain ⟨htokens, hname, hwf⟩ := hdecl x
    refine ⟨.inl (decl x), htokens, ?_, fun _ _ h => h⟩
    simpa only [Sum.elim_inl, hname, hwf] using hG
  · rintro (d | _) k rest' hks hF hG
    · have hword : keyword d = word := by
        cases d <;> exact (TokenKind.keyword.inj (List.cons.inj hks).1).symm
      obtain ⟨x, rfl⟩ := hall d hword
      obtain ⟨htokens, hname, hwf⟩ := hdecl x
      refine ⟨x, htokens, trivial, ?_, fun _ _ h => h⟩
      simpa only [Sum.elim_inl, hname, hwf] using hG
    · exact absurd ((List.cons.inj hks).1.trans hF) TokenKind.noConfusion

/-- The items read so far: the types that they declare are in the package, with their attributes and marks. -/
structure Entered (cx : ReadingContext σ) (package : Nat) (aliases : List String) (items : List Item)
    (r : Reading σ) : Prop where
  scope : Scope cx package aliases (items.map fun item : Item => item.decl.name) r
  bears : ∀ item ∈ items, r.arena.Bears cx.package package item

theorem Entered.quiet {items : List Item} {r' : Reading σ} (h : Entered cx package aliases items r)
    (hk : r.arena.Keeps [] r'.arena) : Entered cx package aliases items r' :=
  ⟨h.scope.keep hk List.not_mem_nil List.not_mem_nil, fun item hitem => (h.bears item hitem).quiet hk⟩

/-- One item more: its attributes are read, and then its declaration takes them. -/
theorem Entered.snoc {items : List Item} {attrs : List Attr} {d : Decl} {r₁ r' : Reading σ}
    (h : Entered cx package aliases items r) (hd : Dresses r.arena attrs r₁)
    (hs : Declares r₁.arena r₁.attrs (d.marks cx.package) cx package aliases
      (items.map fun item : Item => item.decl.name) d.name r') :
    Entered cx package aliases (items ++ [⟨attrs, d⟩]) r' := by
  obtain ⟨⟨hscope, hk, hfinds⟩, type, hsize, hfound, hwaiting, hmarks⟩ := hs
  have h₁ := h.quiet hd.keeps
  refine ⟨by simpa using hscope, List.forall_mem_append.2 ⟨fun item hitem => ?_,
    List.forall_mem_singleton.2 ⟨type, hsize, hfound, List.forall_mem_append.2 ⟨fun attr hattr => ?_,
      hmarks⟩⟩⟩⟩
  · exact (h₁.bears item hitem).mono hk hfinds fun _ _ => h₁.scope.isAttr hk
  · obtain ⟨n, hn, hnode⟩ := hd.nodes attr hattr
    exact ⟨n, hwaiting n hn, h₁.scope.isAttr hk hnode⟩

theorem reads_declaration {items : List Item} (hr : Faces cx r ks)
    (h : Entered cx package aliases items r) :
    Reads (declaration cx) r ks
      (Sum.elim Item.tokens fun attrs : List Attr => attrs.flatMap Attr.tokens)
      (Sum.elim (fun _ _ => True) fun _ k => k = .eof)
      (Sum.elim (fun x => ((items ++ [x]).map fun item : Item => item.decl.name).Nodup ∧ x.WellFormed)
        fun attrs => ((items ++ []).map fun item : Item => item.decl.name).Nodup ∧
          ∀ attr ∈ attrs, attr.WellFormed)
      (Sum.elim (fun x more r' => more = true ∧ Entered cx package aliases (items ++ [x]) r')
        fun _ more r' => more = false ∧
          (Entered cx package aliases (items ++ []) r' ∧ r'.feed.Spells [.eof])) := by
  obtain ⟨types, htypes⟩ : ∃ types, (items.map fun item : Item => item.decl.name) = types := ⟨_, rfl⟩
  have hsnoc : ∀ x : Item, ((items ++ [x]).map fun item : Item => item.decl.name) =
      types ++ [x.decl.name] := by
    simp [htypes]
  apply Reads.convert
  · apply Reads.bind hr (reads_attributes (a := r.arena) hr rfl)
    · rintro attrs _ r₁ rest₁ _ hr₁ _ hd
      have h₁ : ScopeSince r₁.arena cx package aliases types r₁ :=
        (htypes ▸ (h.quiet hd.keeps).scope).since
      refine Reads.next_bind hr₁ (T := Sum.elim Decl.tokens fun _ : Unit => [])
        (F := Sum.elim (fun _ _ => True) fun _ k => k = .eof)
        (G := Sum.elim (fun d => (types ++ [d.name]).Nodup ∧ d.WellFormed) fun _ => True)
        (R := Sum.elim
          (fun d more r' => more = true ∧ Entered cx package aliases (items ++ [⟨attrs, d⟩]) r')
          fun _ more r' => more = false ∧ Entered cx package aliases items r' ∧
            r'.feed.Spells [.eof])
        fun token feed₂ comments₂ rest₂ hks hr₂ hend => ?_
      have h₂ : ScopeSince r₁.arena cx package aliases types (retake r₁ feed₂ comments₂) :=
        h₁.quiet (Keeps.refl _ _)
      have hdeclared : ∀ (d : Decl) (r' : Reading σ),
          Declares r₁.arena r₁.attrs (d.marks cx.package) cx package aliases types d.name r' →
            Entered cx package aliases (items ++ [⟨attrs, d⟩]) r' := fun _ _ hs =>
        h.snoc hd (by rwa [htypes])
      subst hks
      split
      · rename_i hkind
        rw [hkind] at hend ⊢
        have hr₃ := hend rfl
        have hs := hr₃.spells
        obtain rfl := hs.of_eof
        refine (Reads.pure (F := fun k => k = .eof) (Q := fun more r' => more = false ∧
          Entered cx package aliases items r' ∧ r'.feed.Spells [.eof]) hs
          ⟨rfl, h.quiet hd.keeps, hs⟩).convert ?_ ?_
        · exact fun _ _ => ⟨.inr (), rfl, trivial, fun _ _ h => h⟩
        · rintro (d | _) k rest' hks hF _
          · cases d <;> cases hks
          · exact ⟨(), rfl, hF, trivial, fun _ _ h => h⟩
      · rename_i hkind
        rw [hkind] at hr₂ ⊢
        refine reads_declared (fun x : _ × _ × _ => .enum x.1 x.2.1 x.2.2)
          ((reads_enumDeclaration (hr₂ TokenKind.noConfusion) h₂).mono fun x _ r' _ =>
            hdeclared (.enum x.1 x.2.1 x.2.2) r')
          (fun x => ⟨rfl, rfl, Iff.rfl⟩) ?_
        rintro (⟨name, base, values⟩ | ⟨_ | _⟩ | _) hd <;> cases hd
        exact ⟨(name, base, values), rfl⟩
      · rename_i hkind
        rw [hkind] at hr₂ ⊢
        refine reads_declared (fun x : _ × _ × _ => .table false x.1 x.2.1 x.2.2)
          ((reads_tableDeclaration false (hr₂ TokenKind.noConfusion) h₂).mono fun x _ r' _ =>
            hdeclared (.table false x.1 x.2.1 x.2.2) r')
          (fun x => ⟨rfl, rfl, Iff.rfl⟩) ?_
        rintro (_ | ⟨_ | _, name, fields, trailing⟩ | _) hd <;> cases hd
        exact ⟨(name, fields, trailing), rfl⟩
      · rename_i hkind
        rw [hkind] at hr₂ ⊢
        refine reads_declared (fun x : _ × _ × _ => .table true x.1 x.2.1 x.2.2)
          ((reads_tableDeclaration true (hr₂ TokenKind.noConfusion) h₂).mono fun x _ r' _ =>
            hdeclared (.table true x.1 x.2.1 x.2.2) r')
          (fun x => ⟨rfl, rfl, Iff.rfl⟩) ?_
        rintro (_ | ⟨_ | _, name, fields, trailing⟩ | _) hd <;> cases hd
        exact ⟨(name, fields, trailing), rfl⟩
      · rename_i hkind
        rw [hkind] at hr₂ ⊢
        refine reads_declared (fun x : _ × _ × _ × _ => .contract x.1 x.2.1 x.2.2.1 x.2.2.2)
          ((reads_contractDeclaration (hr₂ TokenKind.noConfusion) h₂).mono fun x _ r' _ =>
            hdeclared (.contract x.1 x.2.1 x.2.2.1 x.2.2.2) r')
          (fun x => ⟨rfl, rfl, Iff.rfl⟩) ?_
        rintro (_ | ⟨_ | _⟩ | ⟨name, bases, methods, trailing⟩) hd <;> cases hd
        exact ⟨(name, bases, methods, trailing), rfl⟩
      · rename_i hend henum htable hstruct hcontract
        refine Reads.fail ⟨_, _, rfl⟩ fun x k rest' hks hF _ => ?_
        rcases x with (_ | ⟨_ | _⟩ | _) | _
        · exact henum (List.cons.inj hks).1
        · exact htable (List.cons.inj hks).1
        · exact hstruct (List.cons.inj hks).1
        · exact hcontract (List.cons.inj hks).1
        · exact hend ((List.cons.inj hks).1.trans hF)
    · rintro attrs (d | _) k hF
      · cases d <;> exact fun _ _ => TokenKind.noConfusion
      · rintro _ _ rfl
        cases hF
  · rintro ⟨attrs, d | _⟩ ⟨hattrs, hG⟩
    · exact ⟨.inl ⟨attrs, d⟩, rfl, ⟨by simpa only [hsnoc] using hG.1, hattrs, hG.2⟩, fun _ _ h => h⟩
    · exact ⟨.inr attrs, by simp, ⟨by simpa using h.scope.types_nodup, hattrs⟩,
        fun _ _ h => by simpa using h⟩
  · rintro (⟨attrs, d⟩ | attrs) k rest _ hF hG
    · exact ⟨(attrs, .inl d), rfl, trivial, ⟨hG.2.1, by simpa only [hsnoc] using hG.1, hG.2.2⟩,
        fun _ _ h => h⟩
    · exact ⟨(attrs, .inr ()), by simp, hF, ⟨hG.2, trivial⟩, fun _ _ h => by simpa using h⟩

/-! ## Imports -/

/-- Every import is answered, and the answer leaves the given nodes alone. -/
def Welcomes (importer : Importer σ) (kept : List NodeId) : Prop :=
  ∀ path position a host, ∃ q b host', importer path position (a, host) = .ok q (b, host') ∧
    a.size ≤ b.size ∧ ∀ n ∈ kept, b.kind n = a.kind n

/-- An importer that does nothing answers every import. -/
theorem welcomes_pure (q : NodeId) (kept : List NodeId) :
    Welcomes (fun _ _ s => .ok q s : Importer σ) kept :=
  fun _ _ a host => ⟨q, a, host, rfl, Nat.le_refl _, fun _ _ => rfl⟩

/-- An import is answered and bound, where its alias is new. -/
theorem importPackage_ok (hw : Welcomes cx.importer [cx.script, package])
    (h : Scope cx package aliases types r) (path : String) (position : Position) :
    ∃ q r', importPackage cx path position r = .ok q r' ∧ r'.feed = r.feed ∧
      Scope cx package aliases types r' := by
  obtain ⟨feed, comments, attrs, a, host⟩ := r
  obtain ⟨q, b, host', hok, hsize, hkind⟩ := hw path position a host
  have hkeep : ∀ {n : Nat} {P : NodeKind → Prop}, n ∈ [cx.script, package] → a.HasKind n P →
      b.HasKind n P := fun hn hp =>
    ⟨Nat.lt_of_lt_of_le hp.1 hsize, by rw [hkind _ hn]; exact hp.2⟩
  refine ⟨q, ⟨feed, comments, attrs, b, host'⟩, ?_, rfl, hkeep (by simp) h.script,
    hkeep (by simp) h.package, h.aliases_nodup, h.types_nodup⟩
  simp only [importPackage, hok]

theorem reads_import (hw : Welcomes cx.importer [cx.script, package]) (hr : Faces cx r ks)
    (h : Scope cx package aliases types r) (name path : String) (position : Position) :
    Reads (do
      let package ← importPackage cx path position
      let node ← bindImport cx name package position
      attachComments node) r ks (fun _ : Unit => []) (fun _ _ => True)
      (fun _ => (aliases ++ [name]).Nodup)
      fun _ _ r' => Scope cx package (aliases ++ [name]) types r' := by
  obtain ⟨q, r₁, hok, hfeed, h₁⟩ := importPackage_ok hw h path position
  have hr₁ : Faces cx r₁ ks := hr.keep (hfeed ▸ hr.spells)
  apply Reads.convert
  · apply Reads.follow (bind_ok hok)
    apply Reads.unique_bind hr₁ (enters_newPackageRef h₁.script)
    intro node b hnew hb hr₂
    refine Reads.attachComments (F := fun _ => True)
      (Q := Scope cx package (aliases ++ [name]) types) hr₂ fun r₃ hk₃ => ?_
    exact h₁.bound (hb.1.quiet hk₃) (hb.2.keep hk₃ List.not_mem_nil) hnew
  · exact fun _ hG => ⟨(), rfl, nodup_snoc.2 ⟨h.aliases_nodup, hG.1⟩, fun _ _ h => h⟩
  · exact fun _ k rest _ _ hG => ⟨(), rfl, trivial, ⟨(nodup_snoc.1 hG).2, trivial⟩,
      fun _ _ h => h⟩

theorem reads_importClause (hw : Welcomes cx.importer [cx.script, package]) (hr : Faces cx r ks)
    (h : Scope cx package aliases types r) :
    Reads (importClause cx) r ks Import.tokens (fun _ _ => True)
      (fun x => (aliases ++ [x.boundAs]).Nodup)
      fun x _ r' => Scope cx package (aliases ++ [x.boundAs]) types r' := by
  refine Reads.next_bind hr fun token feed comments rest hks hr₁ _ => ?_
  subst hks
  split
  · rename_i path hkind
    rw [hkind] at hr₁ ⊢
    rw [pure_bind]
    refine Reads.prepend [.string path] (reads_import hw (hr₁ TokenKind.noConfusion)
      (h.retake ..) (aliasOf path) path token.position) ?_ ?_
    · exact fun _ hG => ⟨⟨none, path⟩, rfl, hG, fun _ _ h => h⟩
    · rintro ⟨_ | name, path'⟩ k rest' hks _ hG
      · obtain rfl : path = path' := TokenKind.string.inj (List.cons.inj hks).1
        exact ⟨(), rfl, trivial, hG, fun _ _ h => h⟩
      · cases (List.cons.inj hks).1
  · rename_i name hkind
    rw [hkind] at hr₁ ⊢
    simp only [pure_bind]
    have hr₂ := hr₁ TokenKind.noConfusion
    refine Reads.prepend [.ident name] (Reads.expectString_bind hr₂
      fun path position feed₃ comments₃ rest₃ _ hr₃ => reads_import hw hr₃
        ((h.retake feed comments).retake ..) name path position) ?_ ?_
    · exact fun x hG => ⟨⟨some name, x.1⟩, rfl, hG, fun _ _ h => h⟩
    · rintro ⟨_ | name', path⟩ k rest' hks _ hG
      · cases (List.cons.inj hks).1
      · obtain rfl : name = name' := TokenKind.ident.inj (List.cons.inj hks).1
        exact ⟨(path, ()), rfl, trivial, hG, fun _ _ h => h⟩
  · rename_i hstring hident
    refine Reads.fail ⟨_, _, rfl⟩ ?_
    rintro ⟨_ | name, path⟩ k rest' hks _ _
    · exact hstring path (List.cons.inj hks).1
    · exact hident name (List.cons.inj hks).1

/-- No import starts with a parenthesis. -/
theorem Import.stops (x : Import) (ts : List TokenKind) (k : TokenKind) (cs : List Char) :
    Stops cs ((x.tokens ++ ts).headD k) := by
  obtain ⟨_ | name, path⟩ := x
  · exact fun _ _ => TokenKind.noConfusion
  · exact stops_ident _ _

theorem reads_groupedImport (hw : Welcomes cx.importer [cx.script, package]) (hr : Faces cx r ks)
    (h : Scope cx package aliases types r) :
    Reads (groupedImport cx) r ks (Sum.elim Import.tokens fun _ : Unit => [])
      (Sum.elim (fun _ _ => True) fun _ k => k = .char ')')
      (Sum.elim (fun x => (aliases ++ [x.boundAs]).Nodup ∧ True) fun _ => (aliases ++ []).Nodup ∧ True)
      (Sum.elim (fun x more r' => more = true ∧
          Scope cx package (aliases ++ [x.boundAs]) types r')
        fun _ more r' => more = false ∧ Scope cx package (aliases ++ []) types r') := by
  apply Reads.convert
  · apply Reads.nextIs_bind hr
    · intro feed₁ comments₁ hr₁
      exact Reads.pure (F := fun _ => True)
        (Q := fun more r' => more = false ∧ Scope cx package aliases types r') hr₁.spells
        ⟨rfl, h.retake ..⟩
    · intro feed₁ comments₁ hr₁
      exact (reads_importClause hw hr₁ (h.retake ..)).finish (R := fun x more r' => more = true ∧
        Scope cx package (aliases ++ [x.boundAs]) types r') fun x _ r₂ hq =>
          ⟨true, r₂, rfl, rfl, rfl, hq⟩
  · rintro (_ | x) hG
    · exact ⟨.inr (), rfl, ⟨by simpa using h.aliases_nodup, trivial⟩,
        fun _ _ h => by simpa using h⟩
    · exact ⟨.inl x, rfl, ⟨hG, trivial⟩, fun _ _ h => h⟩
  · rintro (x | _) k rest _ hF hG
    · refine ⟨.inr x, rfl, ⟨trivial, ?_⟩, hG.1, fun _ _ h => h⟩
      have := Parse.Import.stops x [] k [')'] ')' (by simp)
      rwa [List.append_nil] at this
    · exact ⟨.inl (), rfl, ⟨trivial, hF⟩, trivial, fun _ _ h => by simpa using h⟩

theorem reads_importStatement (hw : Welcomes cx.importer [cx.script, package]) (hr : Faces cx r ks)
    (h : Scope cx package aliases types r) :
    Reads (importStatement cx) r ks (Sum.elim ImportStatement.tokens fun _ : Unit => [])
      (Sum.elim (fun _ _ => True) fun _ k => k ≠ .keyword .imports)
      (Sum.elim (fun x => (aliases ++ x.clauses.map Import.boundAs).Nodup ∧ True)
        fun _ => (aliases ++ []).Nodup ∧ True)
      (Sum.elim (fun x more r' => more = true ∧
          Scope cx package (aliases ++ x.clauses.map Import.boundAs) types r')
        fun _ more r' => more = false ∧ Scope cx package (aliases ++ []) types r') := by
  apply Reads.convert
  · apply Reads.look_bind hr TokenKind.noConfusion
    · intro token feed₁ comments₁ rest₁ _ hr₁
      apply Reads.matchChar_bind hr₁
      · intro feed₂ comments₂ rest₂ _ hr₂
        rw [if_pos rfl]
        apply Reads.bind hr₂ (Reads.repeatWhile (fun x : Import => [x.boundAs]) (fun _ => [])
          (fun _ => True) (fun _ => True) List.Nodup
          (fun names r => Scope cx package names types r)
          (fun names r => Scope cx package names types r)
          (fun names r ks h hr => reads_groupedImport hw hr h) (fun x => ?_)
          (fun _ _ _ => trivial) (fun _ _ _ _ => trivial)
          (fun xs ys h => (List.nodup_append.1 h).1) cx.budget aliases _ _
          ((h.retake feed₁ comments₁).retake ..) hr₂ hr₂.covered)
        · intro x _ r₃ rest₃ _ hr₃ _ h₃
          apply Reads.expectChar_bind hr₃
          intro feed₄ comments₄ rest₄ _ hr₄
          exact Reads.pure (F := fun _ => True) (Q := fun more r' => more = true ∧
            Scope cx package (aliases ++ (x.1.flatMap (fun x => [x.boundAs]) ++ [])) types r')
            hr₄.spells ⟨rfl, h₃.retake ..⟩
        · exact fun _ _ _ _ => rfl
        · have hmem : TokenKind.string x.path ∈ x.tokens := by simp [Import.tokens]
          exact TokenKind.count_pos hmem TokenKind.noConfusion
      · intro feed₂ comments₂ hr₂
        rw [if_neg Bool.false_ne_true]
        exact (reads_importClause hw hr₂ ((h.retake feed₁ comments₁).retake ..)).finish
          (R := fun x more r' => more = true ∧
            Scope cx package (aliases ++ [x.boundAs]) types r') fun x _ r₂ hq =>
            ⟨true, r₂, rfl, rfl, rfl, hq⟩
    · intro token feed₁ comments₁ hr₁
      exact Reads.pure (F := fun _ => True)
        (Q := fun more r' => more = false ∧ Scope cx package aliases types r') hr₁.spells
        ⟨rfl, h.retake ..⟩
  · rintro ((⟨⟨clauses, _⟩, _⟩ | clause) | _) hG
    · refine ⟨.inl (.group clauses), by simp [ImportStatement.tokens], ⟨?_, trivial⟩, ?_⟩
      · simpa [ImportStatement.clauses, List.map_eq_flatMap] using hG.1.1
      · exact fun _ _ h => by simpa [ImportStatement.clauses, List.map_eq_flatMap] using h
    · exact ⟨.inl (.single clause), rfl, ⟨hG, trivial⟩, fun _ _ h => h⟩
    · exact ⟨.inr (), rfl, ⟨by simpa using h.aliases_nodup, trivial⟩,
        fun _ _ h => by simpa using h⟩
  · rintro ((clause | clauses) | _) k rest _ hF ⟨hG, -⟩
    · refine ⟨.inl (.inr clause), rfl, ⟨trivial, ?_⟩, hG, fun _ _ h => h⟩
      have := Parse.Import.stops clause [] k ['('] '(' (by simp)
      rwa [List.append_nil] at this
    · refine ⟨.inl (.inl ((clauses, ()), ())), by simp [ImportStatement.tokens], trivial,
        ⟨⟨?_, fun _ _ => trivial, trivial⟩, trivial⟩, fun _ _ h => ?_⟩
      · simpa [ImportStatement.clauses, List.map_eq_flatMap] using hG
      · simpa [ImportStatement.clauses, List.map_eq_flatMap] using h
    · exact ⟨.inr (), rfl, ⟨trivial, hF⟩, trivial, fun _ _ h => by simpa using h⟩

/-! ## The whole script -/

/-- The built-in package is imported, or is bound already. -/
theorem implicitImport_ok (hw : Welcomes cx.importer [cx.script, package])
    (h : Scope cx package aliases types r) : ∃ aliases' r', implicitImport cx r = .ok () r' ∧
      r'.feed = r.feed ∧ Scope cx package aliases' types r' := by
  obtain ⟨hs, decl, hkind, hpackage, hnames⟩ := h.script
  have hscript : r.arena.script? cx.script = some decl := by simp [script?, hkind]
  rw [implicitImport_eq hscript]
  split
  · rename_i hcond
    obtain ⟨q, r₁, hok, hfeed, h₁⟩ :=
      importPackage_ok hw h Prelude.packageName ⟨cx.file, 1, 1⟩
    have hnew : Prelude.packageName ∉ aliases := by
      rw [← hnames, ← Registry.contains_iff]
      simpa using (Bool.and_eq_true_iff.1 hcond).2
    obtain ⟨x, b, hbound, hk, hs⟩ : ∃ x b, bindImport cx Prelude.packageName q ⟨cx.file, 1, 1⟩ r₁ =
        .ok x (rebuild r₁ b) ∧ r₁.arena.Keeps [cx.script] b ∧
        b.HasKind cx.script (ImportsAre package (aliases ++ [Prelude.packageName])) :=
      buildUnique_new .importAlias _ (enters_newPackageRef h₁.script) hnew
    exact ⟨_, rebuild r₁ b, (bind_ok hok).trans (bind_ok hbound), hfeed, h₁.bound hk hs hnew⟩
  · exact ⟨aliases, r, rfl, rfl, h⟩

/-- What comes after the imports starts with no import. -/
theorem headD_items_ne (items : List Item) (trailing : List Attr) {k : TokenKind} (hk : k = .eof) :
    (items.flatMap Item.tokens ++ trailing.flatMap Attr.tokens).headD k ≠ .keyword .imports := by
  subst hk
  rcases items with _ | ⟨⟨_ | ⟨attr, attrs⟩, decl⟩, items⟩
  · cases trailing <;> exact TokenKind.noConfusion
  · rcases decl with _ | ⟨_ | _⟩ | _ <;> exact fun h => by cases h
  · exact TokenKind.noConfusion

/-- The script keeps the attributes and comments that are left. -/
theorem Entered.closed {items : List Item} (h : Entered cx package aliases items r) : ∃ r', (do
      attachAttrs cx.script
      attachAllComments cx.script) r = .ok () r' ∧ r'.feed = r.feed ∧
      ∀ item ∈ items, r'.arena.Bears cx.package package item := by
  have hk := (Keeps.addAttrs cx.script r.attrs r.arena).quiet
    (Keeps.bindComments _ cx.script r.comments)
  exact ⟨_, rfl, rfl, fun item hitem => (h.bears item hitem).quiet hk⟩

theorem reads_script (hw : Welcomes cx.importer [cx.script, package]) (hr : Faces cx r ks)
    (h : Scope cx package [] [] r) :
    Reads (script cx) r ks Phrase.Script.tokens (fun _ k => k = .eof) Phrase.Script.WellFormed
      fun x _ r' => r'.feed.Spells [.eof] ∧ ∀ item ∈ x.items, r'.arena.Bears cx.package package item := by
  apply Reads.convert
  · apply Reads.bind hr (Reads.repeatWhile
      (fun x : ImportStatement => x.clauses.map Import.boundAs) (fun _ => []) (fun _ => True)
      (fun _ => True) List.Nodup (fun names r => Scope cx package names [] r)
      (fun names r => Scope cx package names [] r)
      (fun names r ks h hr => reads_importStatement hw hr h) (fun x => ?_)
      (fun _ _ _ => trivial) (fun _ _ _ _ => trivial)
      (fun xs ys h => (List.nodup_append.1 h).1) cx.budget [] r ks h hr hr.covered)
    · intro x _ r₁ rest₁ _ hr₁ _ h₁
      obtain ⟨aliases, r₂, hok, hfeed, h₂⟩ := implicitImport_ok hw h₁
      have hr₂ : Faces cx r₂ rest₁ := hr₁.keep (hfeed ▸ hr₁.spells)
      have hentered : Entered cx package aliases [] r₂ := ⟨h₂, List.forall_mem_nil _⟩
      apply Reads.follow (bind_ok hok)
      apply (Reads.repeatWhile (fun x : Item => [x]) (fun _ => []) Item.WellFormed
        (fun attrs : List Attr => ∀ attr ∈ attrs, attr.WellFormed)
        (fun items => (items.map fun item : Item => item.decl.name).Nodup)
        (fun items r => Entered cx package aliases items r)
        (fun items r => Entered cx package aliases items r ∧ r.feed.Spells [.eof])
        (fun items r ks h hr => reads_declaration hr h) (fun x => ?_) (fun _ _ _ => trivial)
        (fun _ _ _ _ => trivial) (fun xs ys h => ?_) cx.budget [] r₂ rest₁
        hentered hr₂ hr₂.covered).finish (R := fun x _ r' => r'.feed.Spells [.eof] ∧
          ∀ item ∈ x.1, r'.arena.Bears cx.package package item)
      · rintro ⟨items, trailing⟩ _ r₃ ⟨h₃, hspells⟩
        simp only [List.nil_append, List.append_nil, List.flatMap_singleton'] at h₃
        obtain ⟨r', hrun, hfeed', hattrs⟩ := h₃.closed
        exact ⟨(), r', hrun, hfeed', hfeed' ▸ hspells, hattrs⟩
      · have hmem : TokenKind.keyword (keyword x.decl) ∈ x.tokens := by
          obtain ⟨attrs, _ | _ | _⟩ := x <;> simp [Item.tokens, Decl.tokens, keyword]
        exact TokenKind.count_pos hmem TokenKind.noConfusion
      · rw [List.map_append] at h
        exact (List.nodup_append.1 h).1
    · exact fun _ x _ hF => headD_items_ne x.1 x.2 hF
    · have hmem : TokenKind.keyword .imports ∈ x.tokens := by
        cases x <;> simp [ImportStatement.tokens]
      exact TokenKind.count_pos hmem TokenKind.noConfusion
  · rintro ⟨⟨imports, _⟩, items, trailing⟩ ⟨⟨haliases, -⟩, htypes, hitems, htrailing⟩
    refine ⟨⟨imports, items, trailing⟩, by simp [Phrase.Script.tokens],
      ⟨hitems, htrailing, ?_, ?_⟩, fun _ _ h => h⟩
    · simpa using htypes
    · simpa [Phrase.Script.clauses, List.map_flatMap] using haliases
  · rintro ⟨imports, items, trailing⟩ k rest _ hF ⟨hitems, htrailing, htypes, haliases⟩
    refine ⟨((imports, ()), items, trailing), by simp [Phrase.Script.tokens], hF,
      ⟨⟨?_, fun _ _ => trivial, trivial⟩, ?_, hitems, htrailing⟩, fun _ _ h => h⟩
    · simpa [Phrase.Script.clauses, List.map_flatMap] using haliases
    · simpa using htypes

end SchemaLang.Parse

namespace SchemaLang

open Arena Phrase NodeKind

/-- A script without imports, of a package without types. -/
structure Arena.Fresh (a : Arena) (script package : Nat) : Prop where
  script : a.HasKind script (ImportsAre package [])
  package : a.HasKind package (TypesAre [])

/-- The first script of a new package is fresh. -/
theorem Arena.fresh_newScript (a : Arena) (name file : String) (path : Option Path) :
    ∃ script b, (a.newPackage name).2.newScript (a.newPackage name).1 file path = (.ok script, b) ∧
      b.Fresh script (a.newPackage name).1 := by
  generalize hp : (a.newPackage name).1 = package
  generalize hb : (a.newPackage name).2 = b
  have hkind : b.HasKind package (· = .package ⟨∅, .empty⟩) := by
    subst hp hb
    exact hasKind_alloc ..
  have hnone : (b.package? package).bind (fun decl => decl.scripts[file]?) = none := by
    simp [package?, hkind.2]
  have hkeeps := (Keeps.alloc b file none ⟨file, 1, 1⟩ (.script ⟨package, path, .empty, #[]⟩)).quiet
    (Keeps.adopt _ package b.size)
  unfold newScript
  simp only [hnone]
  refine ⟨_, _, rfl, ?_, ?_⟩
  · have hscript := (hasKind_alloc b file none ⟨file, 1, 1⟩
      (.script ⟨package, path, .empty, #[]⟩)).adopt package b.size
    refine (hscript.keep (Keeps.updateKind _ package _) ?_).mono ?_
    · simpa using Nat.ne_of_gt hkind.1
    · rintro _ rfl
      exact ⟨_, rfl, rfl, rfl⟩
  · have hchange := hkeeps.change package
    refine ⟨Nat.lt_of_lt_of_le hkind.1 (hchange _).size_le,
      ⟨(∅ : Std.TreeMap String NodeId).insert file b.size, .empty⟩, ?_, rfl⟩
    exact (hkeeps.kind_change hkind.1 _).trans (by rw [hkind.2]; rfl)

/-- A feed is read into a fresh script if it spells a tree of the grammar. -/
theorem Arena.Fresh.reads {σ : Type} {importer : Importer σ} {script package : Nat} {a : Arena}
    {feed : Feed} {ks : List TokenKind} (hfresh : a.Fresh script package)
    (hw : Parse.Welcomes importer [script, package]) (file name : String) (host : σ)
    (hspells : feed.Spells ks) :
    Parse.Reads (Parse.script ⟨script, file, name, feed.size + 1, importer⟩)
      ⟨feed, [], [], a, host⟩ ks Phrase.Script.tokens (fun _ k => k = .eof) Phrase.Script.WellFormed
      fun tree _ r' => r'.feed.Spells [.eof] ∧ ∀ item ∈ tree.items, r'.arena.Bears name package item :=
  Parse.reads_script hw
    ⟨hspells, by rw [hspells.size_eq]; exact Nat.lt_succ_self _⟩
    ⟨hfresh.script, hfresh.package, List.nodup_nil, List.nodup_nil⟩

/-- A source without lexical failure is read into a fresh script exactly if its tokens without the
comments are those of a tree of the grammar, up to the end of the file. -/
theorem readScript_ok_iff_derives {σ : Type} {importer : Importer σ} {script package : Nat}
    {source : Text.Source} {a : Arena} {host : σ} (hfresh : a.Fresh script package)
    (hw : Parse.Welcomes importer [script, package])
    (hlex : (Lexing.ofSource (a.scriptFile script) source).failure = none) :
    (∃ s, readScript importer script source (a, host) = .ok () s) ↔
      ∃ tree : Phrase.Script, tree.WellFormed ∧
        (Lexing.ofSource (a.scriptFile script) source).significant = tree.tokens ++ [.eof] := by
  have hreads := hfresh.reads hw (a.scriptFile script) ((a.packageName? script).getD "") host
    (Lexing.spells (Lexing.ends _ source hlex))
  unfold readScript
  dsimp only
  generalize Lexing.ofSource (a.scriptFile script) source = lexing at hreads ⊢
  constructor
  · rintro ⟨s, hs⟩
    split at hs
    · rename_i r' hrun
      obtain ⟨tree, rest, htokens, hrest, hwf, hend, -⟩ := hreads.sound hrun
      exact ⟨tree, hwf, by rw [htokens, hrest.eq hend]⟩
    · cases hs
  · rintro ⟨tree, hwf, htokens⟩
    obtain ⟨x, r', hrun, -⟩ := hreads.complete tree .eof [] htokens rfl hwf
    exact ⟨(r'.arena, r'.host), by rw [hrun]⟩

/-- A script that imports a package and declares an enum. -/
def small : Phrase.Script where
  imports := [.single ⟨some "a", "b/c"⟩]
  items := [⟨[], .enum "E" (some ⟨.sbyte, rfl⟩) ⟨⟨[], "A", true, 1⟩, [⟨[], "B", false, 2⟩]⟩⟩]
  trailing := []

/-- How the script is written. -/
def smallSource : Text.Source :=
  ⟨"import a \"b/c\" // one\nenum E (sbyte) \x7b A(-1), B(2) \x7d".toList, true⟩

theorem readScript_ok_small : ∃ script b,
    (Arena.empty.newPackage "app").2.newScript 0 "a.tidl" none = (.ok script, b) ∧
    ∃ s, readScript (fun _ _ s => .ok 0 s) script smallSource (b, ()) = .ok () s := by
  obtain ⟨script, b, hnew, hfresh⟩ := Arena.empty.fresh_newScript "app" "a.tidl" none
  have hfile : b.scriptFile script = "a.tidl" := by
    cases hnew
    rfl
  refine ⟨script, b, hnew, (readScript_ok_iff_derives hfresh (Parse.welcomes_pure 0 _) ?_).2
    ⟨small, ?_, ?_⟩⟩
  · rw [hfile]
    decide +kernel
  · refine ⟨?_, List.forall_mem_nil _, by decide, by decide⟩
    rintro item (_ | ⟨_, ⟨⟩⟩)
    refine ⟨List.forall_mem_nil _, ?_, by decide⟩
    rintro value (_ | ⟨_, _ | ⟨_, ⟨⟩⟩⟩)
    · exact ⟨List.forall_mem_nil _, by decide⟩
    · exact ⟨List.forall_mem_nil _, by decide⟩
  · rw [hfile]
    decide +kernel

end SchemaLang
