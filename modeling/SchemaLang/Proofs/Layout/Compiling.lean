import SchemaLang.Proofs.Layout.Script
import SchemaLang.Session

/-!
# The compiler does not see layouts

An import is answered by compiling a package into an arena that holds nodes with other positions and
comments. Neither linking nor compiling looks at them: from alike arenas a session answers an import
the same way, wherever it stands (`mirrors_package`). So the compiler is a host of which the layout
theorem speaks.
-/

namespace SchemaLang

open Arena

variable {α β : Type} {a b : Arena}

/-! ## Outcomes -/

/-- Both values are the same, or both failures are of one kind. -/
def SameOutcome : Except Diagnostic α → Except Diagnostic α → Prop
  | .ok x, .ok y => x = y
  | .error e, .error e' => e.cause.kind = e'.cause.kind
  | _, _ => False

namespace SameOutcome

variable {x y : Except Diagnostic α}

protected theorem refl : ∀ x : Except Diagnostic α, SameOutcome x x
  | .ok _ => rfl
  | .error _ => rfl

theorem cases (h : SameOutcome x y) : (∃ v, x = .ok v ∧ y = .ok v) ∨
    ∃ e e', x = .error e ∧ y = .error e' ∧ e.cause.kind = e'.cause.kind := by
  cases x with
  | ok v =>
    cases y with
    | ok w => exact Or.inl ⟨v, rfl, congrArg _ (Eq.symm h)⟩
    | error e => exact False.elim h
  | error e =>
    cases y with
    | ok w => exact False.elim h
    | error e' => exact Or.inr ⟨e, e', rfl, rfl, h⟩

theorem bind {f g : α → Except Diagnostic β} (h : SameOutcome x y)
    (hf : ∀ v, SameOutcome (f v) (g v)) : SameOutcome (x >>= f) (y >>= g) := by
  obtain ⟨v, rfl, rfl⟩ | ⟨e, e', rfl, rfl, hkind⟩ := h.cases
  · exact hf v
  · exact hkind

end SameOutcome

/-- A query that does not see positions and comments. -/
theorem Arena.Alike.query (h : a.Alike b) (q : Arena → α) (hq : ∀ a, q a.bare = q a) :
    q a = q b := by
  rw [← hq a, h, hq]

/-! ## References -/

namespace Link

theorem lookup_alike (hab : a.Alike b) (id : NodeId) : SameOutcome (a.lookup id) (b.lookup id) := by
  have hreference := hab.query (·.reference? id) fun a => reference?_bare a id
  have hscript : (a.scriptOf id).bind a.script? = (b.scriptOf id).bind b.script? :=
    hab.query (fun a => (a.scriptOf id).bind a.script?) fun a => by
      simp only [scriptOf_bare, funext (script?_bare a)]
  have hpackage : ∀ n, a.package? n = b.package? n := fun n =>
    hab.query (·.package? n) fun a => package?_bare a n
  have hdenoted : ∀ script package path,
      a.denoted? script package path = b.denoted? script package path := by
    intro script package path
    refine hab.query (fun a => a.denoted? script package path) fun a => ?_
    have himported : ∀ name, a.bare.importedPackage? script name = a.importedPackage? script name := by
      simp [importedPackage?]
    have hvalue : ∀ enum name, a.bare.findEnumValue? enum name = a.findEnumValue? enum name := by
      simp [findEnumValue?]
    unfold denoted?
    simp only [himported, hvalue]
  unfold lookup
  dsimp only
  rw [hreference, hscript]
  split
  · rfl
  · rw [hpackage]
    split
    · rfl
    · split
      · rfl
      · rw [hdenoted]
        split <;> rfl

theorem lockstep_bindReference (id : NodeId) :
    Lockstep Arena.Alike (bindReference id) (bindReference id) Eq := by
  intro a b hab
  unfold bindReference
  obtain ⟨target, ha, hb⟩ | ⟨e, e', ha, hb, hkind⟩ := (lookup_alike hab id).cases
  · rw [ha, hb]
    refine ⟨rfl, ?_⟩
    have hresolve : ∀ a : Arena, (a.resolve id target).2.bare = (a.bare.resolve id target).2 := by
      intro a
      simp only [resolve, reference?_bare]
      split <;> simp
    rw [Arena.Alike, hresolve, hresolve, hab]
  · rw [ha, hb]
    exact ⟨hkind, hab⟩

theorem lockstep_bindReferences (package : NodeId) :
    Lockstep Arena.Alike (bindReferences package) (bindReferences package) Eq := by
  intro a b hab
  have hunbound : (a.walk package).filter a.isUnbound = (b.walk package).filter b.isUnbound :=
    hab.query (fun a => (a.walk package).filter a.isUnbound) fun a => by
      have hunbound : ∀ n, a.bare.isUnbound n = a.isUnbound n := by simp [isUnbound]
      rw [walk_bare, funext hunbound]
  unfold bindReferences
  rw [hunbound]
  exact Lockstep.forM lockstep_bindReference _ a b hab

/-! ## Attributes -/

theorem ofPackage_bare (a : Arena) (builtin : NodeId) :
    Vocabulary.ofPackage a.bare builtin = Vocabulary.ofPackage a builtin := by
  have hvalues : ∀ enum, a.bare.enumValues enum = a.enumValues enum := by
    simp [enumValues]
  have hfield : ∀ table name, a.bare.findField? table name = a.findField? table name := by
    simp [findField?]
  unfold Vocabulary.ofPackage
  simp only [package?_bare, hvalues, hfield]

theorem attrType_bare (a : Arena) (attr : NodeId) : a.bare.attrType attr = a.attrType attr := by
  simp [attrType]

theorem attrsOfType_bare (a : Arena) (node type : NodeId) :
    a.bare.attrsOfType node type = a.attrsOfType node type := by
  simp [attrsOfType, attrType_bare]

theorem evalConst_alike (hab : a.Alike b) (expr : NodeId) :
    SameOutcome (a.evalConst expr) (b.evalConst expr) := by
  have hwithin : ∀ fuel expr, SameOutcome (a.evalWithin fuel expr) (b.evalWithin fuel expr) := by
    intro fuel
    induction fuel with
    | zero => exact fun _ => rfl
    | succ fuel ih =>
      intro expr
      unfold evalWithin
      rw [hab.query (·.kind expr) fun a => kind_bare a expr]
      split
      · rfl
      · rfl
      · split
        · rfl
        · rename_i target _
          rw [hab.query (·.enumValue? target) fun a => enumValue?_bare a target]
          split <;> rfl
      · exact (ih _).bind fun l => (ih _).bind fun r => rfl
      · rfl
  unfold evalConst
  rw [hab.query Arena.size size_bare]
  exact hwithin _ expr

theorem usageMask_alike (hab : a.Alike b) (vocabulary : Vocabulary) (attr : NodeId) :
    SameOutcome (a.usageMask vocabulary attr) (b.usageMask vocabulary attr) := by
  have harg : ∀ field args, a.fieldArg? field args = b.fieldArg? field args := fun field args =>
    hab.query (fun a => a.fieldArg? field args) fun a => by simp [fieldArg?]
  unfold usageMask
  dsimp only
  rw [hab.query (·.attrType attr) fun a => attrType_bare a attr]
  split
  · rfl
  · rename_i type _
    rw [hab.query (·.table? type) fun a => table?_bare a type]
    split
    · rfl
    · rw [hab.query (·.attrsOfType type vocabulary.usage) fun a => attrsOfType_bare a _ _]
      split
      · rfl
      · rename_i usage _ _
        rw [hab.query (·.attr? usage) fun a => attr?_bare a usage,
          funext fun args => harg vocabulary.target args]
        split
        · rfl
        · exact evalConst_alike hab _

theorem bare_removeAttr (a : Arena) (node attr : NodeId) :
    (a.removeAttr node attr).2.bare = (a.bare.removeAttr node attr).2 :=
  bare_update a node fun _ => rfl

theorem lockstep_placeAttr (vocabulary : Vocabulary) (node : NodeId) (site : Site)
    (attr : NodeId) :
    Lockstep Arena.Alike (placeAttr vocabulary node site attr)
      (placeAttr vocabulary node site attr) Eq := by
  intro a b hab
  have hdestination : ∀ mask, a.destination? vocabulary node site mask =
      b.destination? vocabulary node site mask := fun mask =>
    hab.query (fun a => a.destination? vocabulary node site mask) fun a => by simp [destination?]
  unfold placeAttr
  obtain ⟨mask, ha, hb⟩ | ⟨e, e', ha, hb, hkind⟩ := (usageMask_alike hab vocabulary attr).cases
  · rw [ha, hb]
    dsimp only
    split
    · exact ⟨rfl, hab⟩
    · rw [hdestination]
      split
      · exact ⟨rfl, hab⟩
      · refine ⟨rfl, ?_⟩
        rw [Arena.Alike, bare_addAttr, bare_addAttr, bare_removeAttr, bare_removeAttr, hab]
  · rw [ha, hb]
    exact ⟨hkind, hab⟩

theorem lockstep_tag (vocabulary : Vocabulary) (node : NodeId) (site : Site) :
    Lockstep Arena.Alike (tag vocabulary node site) (tag vocabulary node site) Eq := by
  intro a b hab
  have hattrs : ∀ type, a.attrsOfType node type = b.attrsOfType node type := fun type =>
    hab.query (·.attrsOfType node type) fun a => attrsOfType_bare a node type
  unfold tag
  split
  · rw [hattrs]
    exact ⟨rfl, by rw [Arena.Alike, setStruct, setStruct, bare_updateKind, bare_updateKind, hab]⟩
  · rw [hattrs]
    exact ⟨rfl, by rw [Arena.Alike, setError, setError, bare_updateKind, bare_updateKind, hab]⟩
  · exact ⟨rfl, hab⟩

theorem lockstep_placeAttributes (package builtin : NodeId) :
    Lockstep Arena.Alike (placeAttributes package builtin) (placeAttributes package builtin)
      Eq := by
  have hsite : ∀ vocabulary entry, Lockstep Arena.Alike (placeSite vocabulary entry)
      (placeSite vocabulary entry) Eq := by
    intro vocabulary entry
    refine (lockstep_tag vocabulary _ _).bind_eq fun site a b hab => ?_
    have hattrs : (a.node entry.1).attrs = (b.node entry.1).attrs :=
      hab.query (fun a => (a.node entry.1).attrs) fun a => by rw [node_bare, Node.attrs_bare]
    rw [hattrs]
    exact Lockstep.forM (lockstep_placeAttr vocabulary entry.1 site) _ a b hab
  intro a b hab
  have hsites : a.sites package = b.sites package := hab.query (·.sites package) fun a => by
    have hat : ∀ n, a.bare.sitesAt n = a.sitesAt n := by simp [sitesAt]
    unfold sites
    rw [walk_bare, funext hat]
  unfold placeAttributes
  rw [hab.query (·.package? package) fun a => package?_bare a package]
  split
  · exact ⟨rfl, hab⟩
  · split
    · exact ⟨rfl, hab⟩
    · rw [hab.query (Vocabulary.ofPackage · builtin) fun a => ofPackage_bare a builtin]
      split
      · exact ⟨rfl, hab⟩
      · rw [hsites]
        exact Lockstep.forM (hsite _) _ a b hab

/-! ## Contracts -/

theorem baseTargets_alike (hab : a.Alike b) :
    ∀ bases, SameOutcome (a.baseTargets bases) (b.baseTargets bases)
  | [] => rfl
  | base :: rest => by
    unfold baseTargets
    rw [hab.query (·.reference? base) fun a => reference?_bare a base]
    split
    · rfl
    · rename_i target _
      rw [hab.query (·.contract? target) fun a => contract?_bare a target]
      split
      · rfl
      · exact (baseTargets_alike hab rest).bind fun _ => rfl

theorem methodId_bare (a : Arena) (method : NodeId) : a.bare.methodId method = a.methodId method := by
  simp [methodId]

theorem lockstep_shiftMethods (add : Adder) (distance : UInt16) : ∀ methods,
    Lockstep Arena.Alike (shiftMethods add distance methods) (shiftMethods add distance methods) Eq
  | [] => .pure rfl
  | method :: rest => by
    intro a b hab
    unfold shiftMethods
    rw [hab.query (·.methodId method) fun a => methodId_bare a method]
    split
    · exact ⟨rfl, hab⟩
    · refine lockstep_shiftMethods add distance rest _ _ ?_
      rw [Arena.Alike, setMethodId, setMethodId, bare_updateKind, bare_updateKind, hab]

theorem bare_copyMethod (a : Arena) (method contract : NodeId) (number : UInt16) :
    (a.copyMethod method contract number).2.bare = (a.bare.copyMethod method contract number).2 := by
  have hpush : ∀ x : Node, (a.push x).2.bare = (a.bare.push x.bare).2 := fun x =>
    congrArg Prod.snd (bare_push a x)
  simp only [copyMethod, bare_insertMethod, hpush, node_bare, fst_push, size_bare]
  rfl

theorem lockstep_inheritMethod (add : Adder) (contract : NodeId) (offset : UInt16)
    (entry : String × NodeId) :
    Lockstep Arena.Alike (inheritMethod add contract offset entry)
      (inheritMethod add contract offset entry) Eq := by
  intro a b hab
  unfold inheritMethod
  rw [hab.query (·.findMethod? contract entry.1) fun a => findMethod?_bare a contract entry.1,
    hab.query (·.methodId entry.2) fun a => methodId_bare a entry.2]
  split
  · exact ⟨rfl, hab⟩
  · split
    · exact ⟨rfl, hab⟩
    · refine ⟨rfl, ?_⟩
      rw [Arena.Alike, bare_copyMethod, bare_copyMethod, hab]

theorem methodsOf_bare (a : Arena) (contract : NodeId) :
    a.bare.methodsOf contract = a.methodsOf contract := by
  simp [methodsOf]

theorem lockstep_inheritMethods (add : Adder) (contract : NodeId) : ∀ bases offset,
    Lockstep Arena.Alike (inheritMethods add contract offset bases)
      (inheritMethods add contract offset bases) Eq
  | [], _ => .pure rfl
  | base :: rest, offset => by
    intro a b hab
    unfold inheritMethods
    dsimp only
    rw [hab.query (·.methodsOf base) fun a => methodsOf_bare a base]
    have hmethods := Lockstep.forM (lockstep_inheritMethod add contract offset) (b.methodsOf base)
      a b hab
    cases hs : (b.methodsOf base).forM (inheritMethod add contract offset) a with
    | ok x a' =>
      cases ht : (b.methodsOf base).forM (inheritMethod add contract offset) b with
      | ok y b' =>
        rw [hs, ht] at hmethods
        dsimp only
        split
        · exact ⟨rfl, hmethods.2⟩
        · exact lockstep_inheritMethods add contract rest _ a' b' hmethods.2
      | error e b' =>
        rw [hs, ht] at hmethods
        exact hmethods.elim
    | error e a' =>
      cases ht : (b.methodsOf base).forM (inheritMethod add contract offset) b with
      | ok y b' =>
        rw [hs, ht] at hmethods
        exact hmethods.elim
      | error e' b' =>
        rw [hs, ht] at hmethods
        exact hmethods

theorem lockstep_inheritAll (add : Adder) (contract : NodeId) (bases : List NodeId) :
    Lockstep Arena.Alike (inheritAll add contract bases) (inheritAll add contract bases) Eq := by
  intro a b hab
  have htotal : a.methodTotal bases = b.methodTotal bases := hab.query (·.methodTotal bases) fun a => by
    induction bases with
    | nil => rfl
    | cons base rest ih => simp only [methodTotal, methodCount_bare, ih]
  unfold inheritAll
  dsimp only
  rw [htotal, hab.query (·.methodsOf contract) fun a => methodsOf_bare a contract]
  split
  · exact ⟨rfl, hab⟩
  · refine (lockstep_shiftMethods add _ _).bind_eq (fun _ =>
      (lockstep_inheritMethods add contract bases 0).bind_eq fun _ => ?_) a b hab
    intro a b hab
    refine ⟨rfl, ?_⟩
    show (a.setFlattened contract).bare = (b.setFlattened contract).bare
    rw [setFlattened, setFlattened, bare_updateKind, bare_updateKind, hab]

theorem lockstep_flatten (add : Adder) : ∀ fuel active contract,
    Lockstep Arena.Alike (flatten add fuel active contract) (flatten add fuel active contract) Eq
  | 0, _, _ => .pure rfl
  | fuel + 1, active, contract => by
    intro a b hab
    unfold flatten
    rw [hab.query (·.contract? contract) fun a => contract?_bare a contract]
    split
    · exact ⟨rfl, hab⟩
    · rename_i decl _
      split
      · exact ⟨rfl, hab⟩
      · split
        · exact ⟨rfl, hab⟩
        · obtain ⟨bases, ha, hb⟩ | ⟨e, e', ha, hb, hkind⟩ :=
            (baseTargets_alike hab decl.bases.toList).cases
          · rw [ha, hb]
            exact (Lockstep.forM (lockstep_flatten add fuel _) bases).bind_eq
              (fun _ => lockstep_inheritAll add contract bases) a b hab
          · rw [ha, hb]
            exact ⟨hkind, hab⟩

/-- Linking alike arenas gives alike arenas. -/
theorem lockstep_package (id : NodeId) (builtin : Option NodeId) :
    Lockstep Arena.Alike (package id builtin) (package id builtin) Eq := by
  refine (lockstep_bindReferences id).bind_eq fun _ =>
    (lockstep_placeAttributes id _).bind_eq fun _ a b hab => ?_
  unfold flattenContracts flattenContractsWith
  rw [hab.query (·.package? id) fun a => package?_bare a id, hab.query Arena.size size_bare]
  split
  · exact ⟨rfl, hab⟩
  · exact Lockstep.forM (lockstep_flatten _ _ _) _ a b hab

end Link

/-! ## Compiling -/

namespace Compile

variable {importer importer' : Importer Catalogue}

theorem lockstep_readFile (h : importer.Mirrors Eq importer') (package : NodeId) (name : String)
    (path : Option Path) (source : Text.Source) :
    Lockstep (Importer.Alike Eq) (readFile importer package name path source)
      (readFile importer' package name path source) Eq := by
  rintro ⟨a, catalogue⟩ ⟨b, catalogue'⟩ ⟨hab, hcatalogue⟩
  have hnew : bareResult (a.newScript package name path) =
      bareResult (b.newScript package name path) := by
    rw [bare_newScript, bare_newScript b, hab]
  obtain ⟨hvalue, harena⟩ := Prod.mk.inj hnew
  unfold readFile
  dsimp only at hvalue harena hcatalogue ⊢
  generalize a.newScript package name path = x at *
  generalize b.newScript package name path = y at *
  obtain ⟨value, a'⟩ := x
  obtain ⟨value', b'⟩ := y
  dsimp only at hvalue harena
  rw [hvalue]
  cases value' with
  | error existing => exact ⟨rfl, harena, hcatalogue⟩
  | ok script =>
    exact lockstep_readScript h script (fun _ => .refl _) (a', catalogue) (b', catalogue')
      ⟨harena, hcatalogue⟩

theorem lockstep_readSources (provider : Provider) (h : importer.Mirrors Eq importer')
    (package : NodeId) : ∀ sources,
    Lockstep (Importer.Alike Eq) (readSources provider importer package sources)
      (readSources provider importer' package sources) Eq
  | .embedded => lockstep_readFile h _ _ _ _
  | .files paths => by
    refine Lockstep.forM (fun path => ?_) paths
    unfold readPath
    split
    · exact fun _ _ hs => ⟨rfl, hs⟩
    · exact lockstep_readFile h _ _ _ _

theorem lockstep_linkPackage (name : String) (package : NodeId) :
    Lockstep (Importer.Alike Eq) (linkPackage name package) (linkPackage name package) Eq := by
  rintro ⟨a, catalogue⟩ ⟨b, catalogue'⟩ ⟨hab, hcatalogue⟩
  cases hcatalogue
  unfold linkPackage
  dsimp only
  generalize (if name == Prelude.packageName then some package
    else catalogue.loaded[Prelude.packageName]?) = builtin
  have hlink := Link.lockstep_package package builtin a b hab
  cases hs : Link.package package builtin a with
  | ok x a' =>
    cases ht : Link.package package builtin b with
    | ok y b' =>
      rw [hs, ht] at hlink
      exact ⟨rfl, hlink.2, rfl⟩
    | error e b' =>
      rw [hs, ht] at hlink
      exact hlink.elim
  | error e a' =>
    cases ht : Link.package package builtin b with
    | ok y b' =>
      rw [hs, ht] at hlink
      exact hlink.elim
    | error e' b' =>
      rw [hs, ht] at hlink
      exact ⟨hlink.1, hlink.2, rfl⟩

theorem bare_truncate (a : Arena) (count : Nat) : (a.truncate count).bare = a.bare.truncate count := by
  unfold truncate bare
  simp

theorem lockstep_load (provider : Provider) (h : importer.Mirrors Eq importer') (name : String)
    (sources : Sources) :
    Lockstep (Importer.Alike Eq) (load provider importer name sources)
      (load provider importer' name sources) Eq := by
  rintro ⟨a, catalogue⟩ ⟨b, catalogue'⟩ ⟨hab, hcatalogue⟩
  cases hcatalogue
  have hsize := hab.query Arena.size size_bare
  have hnew : (a.newPackage name).2.Alike (b.newPackage name).2 := by
    have hnew : bareResult (a.newPackage name) = bareResult (b.newPackage name) := by
      rw [bare_newPackage, bare_newPackage, hab]
    exact congrArg Prod.snd hnew
  have hsteps := ((lockstep_readSources provider h a.size sources).bind_eq fun _ =>
    lockstep_linkPackage name a.size) ((a.newPackage name).2, catalogue.enter name a.size)
      ((b.newPackage name).2, catalogue.enter name a.size) ⟨hnew, rfl⟩
  have hmark : (a.newPackage name).1 = a.size := rfl
  have hmark' : (b.newPackage name).1 = b.size := rfl
  unfold load
  dsimp only
  rw [hmark, hmark', ← hsize]
  generalize (readSources provider importer a.size sources >>= fun _ => linkPackage name a.size)
    ((a.newPackage name).2, catalogue.enter name a.size) = x at hsteps ⊢
  generalize (readSources provider importer' a.size sources >>= fun _ => linkPackage name a.size)
    ((b.newPackage name).2, catalogue.enter name a.size) = y at hsteps ⊢
  cases x with
  | ok _ s =>
    cases y with
    | ok _ t =>
      obtain ⟨-, harena, hcatalogue⟩ := hsteps
      exact ⟨rfl, harena, congrArg (fun c : Catalogue => c.leave.add name a.size) hcatalogue⟩
    | error _ t => exact hsteps.elim
  | error e s =>
    cases y with
    | ok _ t => exact hsteps.elim
    | error e' t =>
      obtain ⟨hkind, harena, hcatalogue⟩ := hsteps
      refine ⟨hkind, ?_, congrArg Catalogue.leave hcatalogue⟩
      dsimp only
      rw [hcatalogue]
      split
      · rw [Arena.Alike, bare_truncate, bare_truncate, harena]
      · exact harena

/-- The compiler answers an import the same way in alike arenas. -/
theorem mirrors_package (provider : Provider) : ∀ depth,
    Importer.Mirrors Eq (package provider depth) (package provider depth) := by
  intro depth
  induction depth with
  | zero =>
    rintro name position position' ⟨a, catalogue⟩ ⟨b, catalogue'⟩ ⟨hab, hcatalogue⟩
    cases hcatalogue
    unfold package
    dsimp only
    split
    · exact ⟨rfl, hab, rfl⟩
    · split
      · exact ⟨rfl, hab, rfl⟩
      · split
        · refine ⟨?_, hab, rfl⟩
          unfold pointAt
          split <;> split <;> rfl
        · exact ⟨rfl, hab, rfl⟩
  | succ depth ih =>
    rintro name position position' ⟨a, catalogue⟩ ⟨b, catalogue'⟩ ⟨hab, hcatalogue⟩
    cases hcatalogue
    unfold package
    dsimp only
    split
    · exact ⟨rfl, hab, rfl⟩
    · split
      · exact ⟨rfl, hab, rfl⟩
      · split
        · refine ⟨?_, hab, rfl⟩
          unfold pointAt
          split <;> split <;> rfl
        · exact lockstep_load provider ih name _ _ _ ⟨hab, rfl⟩

end Compile

/-! ## Sources of the same tokens -/

/-- Two sources that have the same tokens but for comments, up to their ends, are read the same way
into a script of alike arenas, by hosts that behave the same way. Both readings succeed or both fail,
for the same kind of reason; they ask for the same imports in the same order; and the arenas that
they leave are equal but for positions and comments. -/
theorem readScript_of_same_tokens {σ τ : Type} {H : σ → τ → Prop} {importer : Importer σ}
    {importer' : Importer τ} (hosts : importer.Mirrors H importer') {a b : Arena}
    (arenas : a.Alike b) {host : σ} {host' : τ} (start : H host host') (script : NodeId)
    {source source' : Text.Source} {file file' : String}
    (lexes : (Lexing.ofSource file source).failure = none)
    (tokens : (Lexing.ofSource file source).significant =
      (Lexing.ofSource file' source').significant) :
    Alongside (Importer.Alike H) Eq (readScript importer script source (a, host))
      (readScript importer' script source' (b, host')) ∧
    Alongside (Importer.Alike fun x y => H x.1 y.1 ∧ x.2 = y.2) Eq
      (readScript importer.recording script source (a, host, []))
      (readScript importer'.recording script source' (b, host', [])) := by
  have hend := Lexing.eof_mem_kinds lexes
  have hfeed : ∀ file, (Feed.ofLexing (.ofSource file source)).Alike
      (Feed.ofLexing (.ofSource file source')) := by
    intro other
    have hspells := Lexing.spells_ofSource other source
    have hspells' := Lexing.spells_ofSource other source'
    rw [Lexing.significant_ofSource] at hspells hspells' tokens
    rw [Lexing.significant_ofSource] at tokens
    exact .of_spells hspells (tokens ▸ hspells') hend
  exact ⟨lockstep_readScript hosts script hfeed _ _ ⟨arenas, start⟩,
    lockstep_readScript hosts.recording script hfeed _ _ ⟨arenas, start, rfl⟩⟩

/-- A table as it stands alone and among comments, read by the compiler with nothing but the embedded
text of the built-in package at hand. -/
theorem readScript_of_same_tokens_table :
    let provider : Provider := ⟨fun _ => [], fun _ => .ok [], fun _ => .ok .empty, 1⟩
    let host := Compile.package provider 1
    let arena := ((Arena.empty.newPackage "m").2.newScript 0 "a" none).2
    let bare : Text.Source := ⟨"table T{}".toList, true⟩
    let laid : Text.Source := ⟨"// one
 table T { /* two */
}".toList, true⟩
    (Lexing.ofSource "a" bare).failure = none ∧
    (Lexing.ofSource "a" bare).significant = (Lexing.ofSource "b" laid).significant ∧
    Alongside (Importer.Alike Eq) Eq (readScript host 1 bare (arena, .empty))
      (readScript host 1 laid (arena, .empty)) := by
  intro provider host arena bare laid
  have hlex : (Lexing.ofSource "a" bare).failure = none := by decide +kernel
  have htokens : (Lexing.ofSource "a" bare).significant =
      (Lexing.ofSource "b" laid).significant := by decide +kernel
  exact ⟨hlex, htokens,
    (readScript_of_same_tokens (Compile.mirrors_package provider 1) rfl rfl 1 hlex htokens).1⟩

end SchemaLang
