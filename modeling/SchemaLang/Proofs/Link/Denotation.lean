import SchemaLang.Link.References
import SchemaLang.Proofs.Arena.Home

/-!
# What a reference denotes

`Denotes` says what a path stands for in a script, one case for each form of a path, and `Means` what
a reference stands for where it was read. The lookup finds exactly that (`lookup_ok_iff`), provided
that the aliases of the script lead to packages (`Scoped`).

Binding a reference does not change what any reference means (`Binds.means_iff`).
-/

namespace SchemaLang.Arena

variable {a b c : Arena} {n s t : Nat} {script : Script} {package : Package}

/-! ## Denotations -/

/-- The script imports the package under the alias. -/
def Imports (a : Arena) (script : Script) (name : String) (package : Package) : Prop :=
  ∃ node q, script.imports.find? name = some node ∧ a.kind node = .packageRef q ∧
    a.kind q = .package package

/-- What a path denotes in a script of a package. -/
inductive Denotes (a : Arena) (script : Script) (package : Package) : List String → NodeId → Prop
  /-- A name is a type of the package, unless it is an alias of the script. -/
  | type {name : String} {t : NodeId} : script.imports.find? name = none →
    package.types.find? name = some t → Denotes a script package [name] t
  /-- A name behind an alias is a type of the imported package. -/
  | imported {first second : String} {other : Package} {t : NodeId} :
    a.Imports script first other → other.types.find? second = some t →
    Denotes a script package [first, second] t
  /-- A name behind a name that is no alias is a value of an enum of the package. -/
  | value {first second : String} {enum : NodeId} {decl : Enumeration} {t : NodeId} :
    script.imports.find? first = none → package.types.find? first = some enum →
    a.kind enum = .enum decl → decl.values.find? second = some t →
    Denotes a script package [first, second] t
  /-- Two names behind an alias are an enum of the imported package and its value. -/
  | importedValue {first second third : String} {other : Package} {enum : NodeId}
    {decl : Enumeration} {t : NodeId} : a.Imports script first other →
    other.types.find? second = some enum → a.kind enum = .enum decl →
    decl.values.find? third = some t → Denotes a script package [first, second, third] t

/-- What a reference means in the script it was read from. -/
def Means (a : Arena) (reference target : NodeId) : Prop :=
  ∃ s script package decl, (a.node reference).script = some s ∧ a.kind s = .script script ∧
    a.kind script.package = .package package ∧ a.kind reference = .typeRef decl ∧
    Denotes a script package decl.path target

theorem Imports.unique {name : String} {other other' : Package}
    (h : a.Imports script name other) (h' : a.Imports script name other') : other = other' := by
  obtain ⟨node, q, hf, hn, hq⟩ := h
  obtain ⟨node', q', hf', hn', hq'⟩ := h'
  rw [hf] at hf'
  cases hf'
  rw [hn] at hn'
  cases hn'
  rw [hq] at hq'
  cases hq'
  rfl

theorem Imports.find?_ne {name : String} {other : Package} (h : a.Imports script name other) :
    script.imports.find? name ≠ none := by
  obtain ⟨node, q, hf, -⟩ := h
  rw [hf]
  simp

theorem Denotes.unique {path : List String} {t t' : NodeId} (h : Denotes a script package path t)
    (h' : Denotes a script package path t') : t = t' := by
  cases h with
  | type hn ht =>
    cases h' with
    | type _ ht' => exact Option.some.inj (ht.symm.trans ht')
  | imported hi ht =>
    cases h' with
    | imported hi' ht' =>
      cases hi.unique hi'
      exact Option.some.inj (ht.symm.trans ht')
    | value hn => exact absurd hn hi.find?_ne
  | value hn he hk ht =>
    cases h' with
    | imported hi' => exact absurd hn hi'.find?_ne
    | value _ he' hk' ht' =>
      cases Option.some.inj (he.symm.trans he')
      cases hk.symm.trans hk'
      exact Option.some.inj (ht.symm.trans ht')
  | importedValue hi he hk ht =>
    cases h' with
    | importedValue hi' he' hk' ht' =>
      cases hi.unique hi'
      cases Option.some.inj (he.symm.trans he')
      cases hk.symm.trans hk'
      exact Option.some.inj (ht.symm.trans ht')

/-- A reference means one thing. -/
theorem Means.unique {t t' : NodeId} (h : a.Means n t) (h' : a.Means n t') : t = t' := by
  obtain ⟨s, script, package, decl, hs, hk, hp, hr, hd⟩ := h
  obtain ⟨s', script', package', decl', hs', hk', hp', hr', hd'⟩ := h'
  cases Option.some.inj (hs.symm.trans hs')
  cases hk.symm.trans hk'
  cases hp.symm.trans hp'
  cases hr.symm.trans hr'
  exact hd.unique hd'

/-! ## The lookup finds it -/

/-- The aliases of a script lead to packages. -/
def ImportsResolve (a : Arena) (script : Script) : Prop :=
  ∀ name node, script.imports.find? name = some node →
    ∃ q other, a.kind node = .packageRef q ∧ a.kind q = .package other

theorem importedPackage?_eq_some {name : String} {other : Package} :
    a.importedPackage? script name = some other ↔ a.Imports script name other := by
  unfold importedPackage? Imports
  constructor
  · intro h
    obtain ⟨node, hf, h⟩ := Option.bind_eq_some_iff.1 h
    obtain ⟨q, hq, h⟩ := Option.bind_eq_some_iff.1 h
    exact ⟨node, q, hf, packageRef?_eq_some.1 hq, package?_eq_some.1 h⟩
  · rintro ⟨node, q, hf, hq, ho⟩
    rw [hf]
    show (a.packageRef? node).bind _ = _
    rw [packageRef?_eq_some.2 hq]
    exact package?_eq_some.2 ho

theorem findEnumValue?_eq_some {enum : NodeId} {name : String} {t : NodeId} :
    a.findEnumValue? enum name = some t ↔
      ∃ decl, a.kind enum = .enum decl ∧ decl.values.find? name = some t := by
  unfold findEnumValue?
  rw [Option.bind_eq_some_iff]
  simp only [enum?_eq_some]

/-- Where an alias leads to a package, a name that is no alias imports nothing, and only such. -/
theorem ImportsResolve.importedPackage?_eq_none (h : a.ImportsResolve script) {name : String} :
    a.importedPackage? script name = none ↔ script.imports.find? name = none := by
  constructor
  · intro hn
    cases hf : script.imports.find? name with
    | none => rfl
    | some node =>
      obtain ⟨q, other, hq, ho⟩ := h name node hf
      rw [importedPackage?_eq_some.2 ⟨node, q, hf, hq, ho⟩] at hn
      cases hn
  · intro hf
    cases hi : a.importedPackage? script name with
    | none => rfl
    | some other => exact absurd hf (importedPackage?_eq_some.1 hi).find?_ne

theorem ImportsResolve.denoted?_eq_some (h : a.ImportsResolve script) {path : List String}
    {t : NodeId} :
    a.denoted? script package path = some t ↔ Denotes a script package path t := by
  match path with
  | [] => exact ⟨nofun, nofun⟩
  | [name] =>
    cases hn : script.imports.find? name with
    | some node =>
      simp only [denoted?, Registry.contains, hn, Option.isSome_some, if_true]
      refine ⟨fun e => (by cases e), fun e => ?_⟩
      cases e with
      | type hn' =>
        rw [hn] at hn'
        cases hn'
    | none =>
      simp only [denoted?, Registry.contains, hn, Option.isSome_none, Bool.false_eq_true,
        if_false]
      refine ⟨fun e => .type hn e, fun e => ?_⟩
      cases e with
      | type _ ht => exact ht
  | [first, second] =>
    simp only [denoted?]
    cases hi : a.importedPackage? script first with
    | some other =>
      have hother := importedPackage?_eq_some.1 hi
      refine ⟨fun e => .imported hother e, fun e => ?_⟩
      cases e with
      | imported hi' ht =>
        cases hother.unique hi'
        exact ht
      | value hn => exact absurd hn hother.find?_ne
    | none =>
      have hn := h.importedPackage?_eq_none.1 hi
      simp only [Option.bind_eq_some_iff, findEnumValue?_eq_some]
      constructor
      · rintro ⟨enum, he, decl, hk, ht⟩
        exact .value hn he hk ht
      · intro e
        cases e with
        | imported hi' => exact absurd hn hi'.find?_ne
        | value _ he hk ht => exact ⟨_, he, _, hk, ht⟩
  | [first, second, third] =>
    simp only [denoted?, Option.bind_eq_some_iff, findEnumValue?_eq_some, importedPackage?_eq_some]
    constructor
    · rintro ⟨other, hi, enum, he, decl, hk, ht⟩
      exact .importedValue hi he hk ht
    · intro e
      cases e with
      | importedValue hi he hk ht => exact ⟨_, hi, _, he, _, hk, ht⟩
  | _ :: _ :: _ :: _ :: _ => exact ⟨fun e => (by cases e), fun e => (by cases e)⟩

/-- A reference that was read from a script whose aliases lead to packages. -/
def Scoped (a : Arena) (n : NodeId) : Prop :=
  ∃ s script package decl, (a.node n).script = some s ∧ a.kind s = .script script ∧
    a.kind script.package = .package package ∧ a.kind n = .typeRef decl ∧ a.ImportsResolve script

/-- The lookup of a reference finds what it means, and fails where it means nothing. -/
theorem lookup_ok_iff (h : a.Scoped n) {t : NodeId} : a.lookup n = .ok t ↔ a.Means n t := by
  obtain ⟨s, script, package, decl, hs, hk, hp, hr, hi⟩ := h
  have hmeans : a.Means n t ↔ Denotes a script package decl.path t := by
    refine ⟨?_, fun hd => ⟨s, script, package, decl, hs, hk, hp, hr, hd⟩⟩
    rintro ⟨s', script', package', decl', hs', hk', hp', hr', hd⟩
    cases Option.some.inj (hs.symm.trans hs')
    cases hk.symm.trans hk'
    cases hp.symm.trans hp'
    cases hr.symm.trans hr'
    exact hd
  have hscript : (a.scriptOf n).bind a.script? = some script := by
    unfold scriptOf
    rw [hr]
    show ((a.node n).script).bind _ = _
    rw [hs]
    exact script?_eq_some.2 hk
  unfold lookup
  simp only [reference?_eq_some.2 hr, hscript, package?_eq_some.2 hp]
  rw [hmeans, ← hi.denoted?_eq_some]
  -- an alias in the way of a path leaves the path without a denotation
  split
  · rename_i name node hc
    refine ⟨nofun, fun e => ?_⟩
    unfold aliasConflict? at hc
    split at hc
    · rename_i single hpath
      obtain ⟨other, hf, -⟩ := Option.map_eq_some_iff.1 hc
      rw [hpath, hi.denoted?_eq_some] at e
      cases e with
      | type hn =>
        rw [hn] at hf
        cases hf
    · cases hc
  · cases hd : a.denoted? script package decl.path with
    | some target => simp
    | none => simp

/-! ## Binding does not change what references mean -/

/-- References were bound, and nothing else changed. -/
structure Binds (a b : Arena) : Prop where
  size_eq : b.size = a.size
  node_eq : ∀ n : Nat, b.node n = a.node n ∨ ∃ path t, a.kind n = .typeRef ⟨path, none⟩ ∧
    b.node n = { a.node n with kind := .typeRef ⟨path, some t⟩ }

theorem Binds.refl (a : Arena) : Binds a a :=
  ⟨rfl, fun _ => Or.inl rfl⟩

theorem Binds.trans (h : Binds a b) (h' : Binds b c) : Binds a c where
  size_eq := h'.size_eq.trans h.size_eq
  node_eq n := by
    rcases h.node_eq n with hn | ⟨path, t, hk, hn⟩
    · rcases h'.node_eq n with hn' | ⟨path, t, hk, hn'⟩
      · exact Or.inl (hn'.trans hn)
      · refine Or.inr ⟨path, t, ?_, ?_⟩
        · unfold kind at *
          rw [← hn, hk]
        · rw [hn', hn]
    · rcases h'.node_eq n with hn' | ⟨path', t', hk', -⟩
      · exact Or.inr ⟨path, t, hk, hn'.trans hn⟩
      · unfold kind at hk'
        rw [hn] at hk'
        cases hk'

theorem Binds.name_eq (h : Binds a b) (n : Nat) : b.name n = a.name n := by
  unfold name
  rcases h.node_eq n with hn | ⟨path, t, -, hn⟩ <;> rw [hn]

theorem Binds.script_eq (h : Binds a b) (n : Nat) : (b.node n).script = (a.node n).script := by
  rcases h.node_eq n with hn | ⟨path, t, -, hn⟩ <;> rw [hn]

/-- A node that is no reference stays as it is. -/
theorem Binds.kind_iff (h : Binds a b) {kind : NodeKind} (hk : kind.level ≠ 0) :
    b.kind n = kind ↔ a.kind n = kind := by
  rcases h.node_eq n with hn | ⟨path, t, ha, hn⟩
  · unfold Arena.kind
    rw [hn]
  · have hb : b.kind n = .typeRef ⟨path, some t⟩ := by
      unfold Arena.kind
      rw [hn]
    rw [ha, hb]
    constructor
    · rintro rfl
      exact absurd rfl hk
    · rintro rfl
      exact absurd rfl hk

theorem Binds.packageRef_iff (h : Binds a b) {q : NodeId} :
    b.kind n = .packageRef q ↔ a.kind n = .packageRef q :=
  h.kind_iff (Nat.succ_ne_zero 4)

theorem Binds.package_iff (h : Binds a b) : b.kind n = .package package ↔ a.kind n = .package package :=
  h.kind_iff (Nat.succ_ne_zero 7)

theorem Binds.script_iff (h : Binds a b) : b.kind n = .script script ↔ a.kind n = .script script :=
  h.kind_iff (Nat.succ_ne_zero 6)

theorem Binds.enum_iff (h : Binds a b) {decl : Enumeration} :
    b.kind n = .enum decl ↔ a.kind n = .enum decl :=
  h.kind_iff (Nat.succ_ne_zero 5)

theorem Binds.imports_iff (h : Binds a b) {name : String} {other : Package} :
    b.Imports script name other ↔ a.Imports script name other := by
  unfold Imports
  simp only [h.packageRef_iff, h.package_iff]

theorem Binds.denotes_iff (h : Binds a b) {path : List String} {t : NodeId} :
    Denotes b script package path t ↔ Denotes a script package path t := by
  constructor
  · intro hd
    cases hd with
    | type hn ht => exact .type hn ht
    | imported hi ht => exact .imported (h.imports_iff.1 hi) ht
    | value hn he hk ht => exact .value hn he (h.enum_iff.1 hk) ht
    | importedValue hi he hk ht =>
      exact .importedValue (h.imports_iff.1 hi) he (h.enum_iff.1 hk) ht
  · intro hd
    cases hd with
    | type hn ht => exact .type hn ht
    | imported hi ht => exact .imported (h.imports_iff.2 hi) ht
    | value hn he hk ht => exact .value hn he (h.enum_iff.2 hk) ht
    | importedValue hi he hk ht =>
      exact .importedValue (h.imports_iff.2 hi) he (h.enum_iff.2 hk) ht

/-- A reference keeps its path. -/
theorem Binds.path_iff (h : Binds a b) {path : List String} :
    (∃ target, b.kind n = .typeRef ⟨path, target⟩) ↔ ∃ target, a.kind n = .typeRef ⟨path, target⟩ := by
  rcases h.node_eq n with hn | ⟨path', t, ha, hn⟩
  · unfold kind
    rw [hn]
  · have hb : b.kind n = .typeRef ⟨path', some t⟩ := by
      unfold kind
      rw [hn]
    rw [ha, hb]
    simp

theorem Binds.means_iff (h : Binds a b) {t : NodeId} : b.Means n t ↔ a.Means n t := by
  unfold Means
  simp only [h.script_eq, h.script_iff, h.package_iff, h.denotes_iff]
  constructor
  · rintro ⟨s, script, package, decl, hs, hk, hp, hr, hd⟩
    obtain ⟨target, hr'⟩ := h.path_iff.1 ⟨decl.target, hr⟩
    exact ⟨s, script, package, ⟨decl.path, target⟩, hs, hk, hp, hr', hd⟩
  · rintro ⟨s, script, package, decl, hs, hk, hp, hr, hd⟩
    obtain ⟨target, hr'⟩ := h.path_iff.2 ⟨decl.target, hr⟩
    exact ⟨s, script, package, ⟨decl.path, target⟩, hs, hk, hp, hr', hd⟩

theorem Binds.scoped (h : Binds a b) (hs : a.Scoped n) : b.Scoped n := by
  obtain ⟨s, script, package, decl, hs, hk, hp, hr, hi⟩ := hs
  obtain ⟨target, hr'⟩ := h.path_iff.2 ⟨decl.target, hr⟩
  refine ⟨s, script, package, ⟨decl.path, target⟩, by rw [h.script_eq, hs], h.script_iff.2 hk,
    h.package_iff.2 hp, hr', fun name node hf => ?_⟩
  obtain ⟨q, other, hq, ho⟩ := hi name node hf
  exact ⟨q, other, h.packageRef_iff.2 hq, h.package_iff.2 ho⟩

end SchemaLang.Arena
