import SchemaLang.Proofs.Arena.Construction

/-!
# First come, first served

An operation with a rule of uniqueness looks up a name in a container. Where a member has it, the operation is
refused for this member and changes nothing; where nobody has it, a node gets it, and keeps it whatever is
built afterwards.

* `lookup_scripts` and so on: what an operation looks up is the first registered member with the name.
* `Arena.Answered`: what the operation does then.
* `Arena.constructs_consistent`: what holds of every arena that operations have built.
-/

namespace SchemaLang

namespace Arena

variable {a b : Arena} {n m : NodeId} {name : String}

/-! ## Looking up a name -/

theorem holder?_eq_some {entry : Entry} (ha : a.Consistent) :
    a.holder? entry = some n ↔ (entry.name, n) ∈ a.members entry.container entry.space :=
  find?_entry_eq_some (ha.distinct entry.container entry.space)

section

variable (a) (container : NodeId) (name : String)

theorem lookup_scripts : ((a.package? container).bind fun decl => decl.scripts[name]?) =
    a.holder? ⟨container, .scripts, name⟩ := by
  unfold holder? members package?
  cases a.kind container with
  | package decl =>
    have hkeys : (decl.scripts.toList.map (·.1)).Nodup := by
      rw [Std.TreeMap.map_fst_toList_eq_keys]
      exact Std.TreeMap.nodup_keys
    refine Option.ext fun n => ?_
    exact Std.TreeMap.mem_toList_iff_getElem?_eq_some.symm.trans (find?_entry_eq_some hkeys).symm
  | _ => rfl

theorem find?_eq_holder (items : Registry) :
    items.find? name = (items.entries.toList.find? (·.1 == name)).map (·.2) := by
  rw [items.find?_eq, Array.find?_toList]

theorem lookup_types : ((a.package? container).bind fun decl => decl.types.find? name) =
    a.holder? ⟨container, .types, name⟩ := by
  unfold holder? members package?
  cases a.kind container with
  | package decl => exact find?_eq_holder name decl.types
  | _ => rfl

theorem lookup_imports : ((a.script? container).bind fun decl => decl.imports.find? name) =
    a.holder? ⟨container, .imports, name⟩ := by
  unfold holder? members script?
  cases a.kind container with
  | script decl => exact find?_eq_holder name decl.imports
  | _ => rfl

theorem lookup_values : ((a.enum? container).bind fun decl => decl.values.find? name) =
    a.holder? ⟨container, .values, name⟩ := by
  unfold holder? members enum?
  cases a.kind container with
  | enum decl => exact find?_eq_holder name decl.values
  | _ => rfl

theorem lookup_methods : a.findMethod? container name = a.holder? ⟨container, .methods, name⟩ := by
  unfold holder? members findMethod? contract?
  cases a.kind container with
  | contract decl => exact find?_eq_holder name decl.methods
  | _ => rfl

theorem lookup_labels : ((a.namedArgs? container).bind fun items => items.find? name) =
    a.holder? ⟨container, .labels, name⟩ := by
  unfold holder? members namedArgs?
  cases a.kind container with
  | namedArgs items => exact find?_eq_holder name items
  | _ => rfl

theorem find?_named (nodes : Array NodeId) : nodes.find? (fun m => a.name m == name) =
    ((nodes.toList.map fun m => (a.name m, m)).find? (·.1 == name)).map (·.2) := by
  rw [List.find?_map, Option.map_map, ← Array.find?_toList]
  exact Option.map_id'.symm

theorem lookup_fields : ((a.fieldsOf container).find? fun field => a.name field == name) =
    a.holder? ⟨container, .fields, name⟩ := by
  rw [find?_named]
  unfold holder? members fieldsOf table?
  cases a.kind container <;> rfl

theorem lookup_bases : ((a.basesOf container).find? fun base => a.name base == name) =
    a.holder? ⟨container, .bases, name⟩ := by
  rw [find?_named]
  unfold holder? members basesOf contract?
  cases a.kind container <;> rfl

end

/-! ## Asking for a name -/

/-- The name is given to whoever asks first: either a node has it, which is the answer, and nothing changes,
or nobody has it and then a node does. -/
def Answered {α : Type} (a : Arena) (entry : Entry) (answer : Except NodeId α × Arena) : Prop :=
  (∃ n, a.holder? entry = some n ∧ answer = (.error n, a)) ∨
  (a.holder? entry = none ∧ (∃ value, answer.1 = .ok value) ∧
    (entry.Suits a → ∃ n, (entry.name, n) ∈ answer.2.members entry.container entry.space))

theorem Answered.plain {α : Type} {entry : Entry} {answer : Except NodeId α × Arena}
    (h : a.Answered entry answer) : a.Answered entry (Operation.plain answer) := by
  rcases h with ⟨n, hn, rfl⟩ | ⟨hfree, ⟨value, hvalue⟩, hmem⟩
  · exact .inl ⟨n, hn, rfl⟩
  · refine .inr ⟨hfree, ⟨(), ?_⟩, hmem⟩
    rw [Operation.plain, hvalue]
    rfl

theorem plain_error {α : Type} {answer : Except NodeId α × Arena}
    (h : (Operation.plain answer).1 = .error n) : answer.1 = .error n := by
  obtain ⟨result, arena⟩ := answer
  cases result with
  | ok value => cases h
  | error existing =>
    cases h
    rfl

theorem Answered.of_error {α : Type} {entry : Entry} {answer : Except NodeId α × Arena}
    (h : a.Answered entry answer) (he : answer.1 = .error n) :
    answer.2 = a ∧ a.holder? entry = some n := by
  rcases h with ⟨m, hm, rfl⟩ | ⟨-, ⟨value, hvalue⟩, -⟩
  · cases he
    exact ⟨rfl, hm⟩
  · rw [hvalue] at he
    cases he

theorem Answered.of_ok {α : Type} {entry : Entry} {answer : Except NodeId α × Arena} {value : α}
    (h : a.Answered entry answer) (hs : entry.Suits a) (he : answer.1 = .ok value) :
    a.holder? entry = none ∧
      ∃ n, (entry.name, n) ∈ answer.2.members entry.container entry.space := by
  rcases h with ⟨m, -, rfl⟩ | ⟨hfree, -, hmem⟩
  · cases he
  · exact ⟨hfree, hmem hs⟩

section

variable (a)

theorem members_adopt (parent child container : NodeId) (space : Space) :
    (a.adopt parent child).members container space = a.members container space := by
  unfold members
  rw [kind_adopt, show (a.adopt parent child).name = a.name from funext (name_adopt a parent child)]

theorem members_updateKind {container : NodeId} (h : container < a.size) (f : NodeKind → NodeKind)
    (space : Space) : (a.updateKind container f).members container space =
      (f (a.kind container)).members a.name space := by
  rw [members, kind_updateKind, if_pos ⟨rfl, h⟩, show (a.updateKind container f).name = a.name from
    funext (name_updateKind a container f)]

/-- A change that concerns other collections keeps the members. -/
theorem members_updateKind_of_same (n : NodeId) {f : NodeKind → NodeKind} {space : Space}
    (h : ∀ kind, (f kind).members a.name space = kind.members a.name space) (container : NodeId) :
    (a.updateKind n f).members container space = a.members container space := by
  rw [members, kind_updateKind, show (a.updateKind n f).name = a.name from funext (name_updateKind a n f)]
  split
  · exact h _
  · rfl

theorem mem_entries_insert (items : Registry) (name : String) (node : NodeId) :
    (name, node) ∈ (items.insert name node).entries.toList := by
  rw [← Registry.find?_eq_some, Registry.find?_insert, if_pos rfl]

/-- The members of a node, once a new node is entered there. -/
theorem members_new {container : NodeId} (h : container < a.size) (name : String)
    (script : Option NodeId) (position : Position) (kind : NodeKind) (f : NodeKind → NodeKind)
    (space : Space) :
    (((a.alloc name script position kind).2.adopt container a.size).updateKind container f).members
        container space = (f (a.kind container)).members (a.alloc name script position kind).2.name space := by
  have hlt : container < ((a.alloc name script position kind).2.adopt container a.size).size := by
    rw [size_adopt, size_alloc]
    exact Nat.lt_succ_of_lt h
  rw [members_updateKind _ hlt, kind_adopt, kind_alloc_of_lt h]
  congr 1
  exact funext fun n => name_adopt _ container a.size n

theorem answered_newScript {package : NodeId} (name : String) (path : Option Path)
    (hp : package < a.size) :
    a.Answered ⟨package, .scripts, name⟩ (a.newScript package name path) := by
  unfold newScript
  rw [lookup_scripts]
  cases hfree : a.holder? ⟨package, .scripts, name⟩ with
  | some n => exact .inl ⟨n, hfree, rfl⟩
  | none =>
    refine .inr ⟨hfree, ⟨_, rfl⟩, ?_⟩
    rintro ⟨decl, hk⟩
    refine ⟨a.size, ?_⟩
    dsimp only [fst_alloc]
    rw [members_new a hp, hk]
    exact Std.TreeMap.mem_toList_iff_getElem?_eq_some.2 Std.TreeMap.getElem?_insert_self

theorem answered_declareType {script package : NodeId} (type : NodeId)
    (hp : a.packageOf script = some package) :
    a.Answered ⟨package, .types, a.name type⟩ (a.declareType script type) := by
  unfold declareType
  rw [hp]
  dsimp only
  rw [lookup_types]
  cases hfree : a.holder? ⟨package, .types, a.name type⟩ with
  | some n => exact .inl ⟨n, hfree, rfl⟩
  | none =>
    refine .inr ⟨hfree, ⟨_, rfl⟩, ?_⟩
    rintro ⟨decl, hk⟩
    refine ⟨type, ?_⟩
    have hlt : package < a.size := lt_size_of_kind (by rw [hk]; simp [NodeKind.level])
    dsimp only
    rw [members_adopt, members_updateKind_of_same, members_updateKind _ hlt, hk]
    · exact mem_entries_insert ..
    · intro kind
      cases kind <;> rfl

theorem answered_newPackageRef {script : NodeId} (name : String) (package : NodeId)
    (position : Position) (hs : script < a.size) :
    a.Answered ⟨script, .imports, name⟩ (a.newPackageRef script name package position) := by
  unfold newPackageRef
  rw [lookup_imports]
  cases hfree : a.holder? ⟨script, .imports, name⟩ with
  | some n => exact .inl ⟨n, hfree, rfl⟩
  | none =>
    refine .inr ⟨hfree, ⟨_, rfl⟩, ?_⟩
    rintro ⟨decl, hk⟩
    refine ⟨a.size, ?_⟩
    dsimp only [fst_alloc]
    rw [members_new a hs, hk]
    exact mem_entries_insert ..

theorem answered_newEnumValue {enum : NodeId} (name : String) (value : Int64) (position : Position)
    (he : enum < a.size) :
    a.Answered ⟨enum, .values, name⟩ (a.newEnumValue enum name value position) := by
  unfold newEnumValue
  rw [lookup_values]
  cases hfree : a.holder? ⟨enum, .values, name⟩ with
  | some n => exact .inl ⟨n, hfree, rfl⟩
  | none =>
    refine .inr ⟨hfree, ⟨_, rfl⟩, ?_⟩
    rintro ⟨decl, hk⟩
    refine ⟨a.size, ?_⟩
    dsimp only [fst_alloc]
    rw [members_new a he, hk]
    exact mem_entries_insert ..

theorem answered_newField {table : NodeId} (name : String) (type : NodeId) (position : Position)
    (ht : table < a.size) :
    a.Answered ⟨table, .fields, name⟩ (a.newField table name type position) := by
  unfold newField
  rw [lookup_fields]
  cases hfree : a.holder? ⟨table, .fields, name⟩ with
  | some n => exact .inl ⟨n, hfree, rfl⟩
  | none =>
    refine .inr ⟨hfree, ⟨_, rfl⟩, ?_⟩
    rintro ⟨decl, hk⟩
    refine ⟨a.size, ?_⟩
    dsimp only [fst_alloc]
    rw [members_updateKind _ (by rw [size_adopt, size_adopt, size_alloc]; exact Nat.lt_succ_of_lt ht),
      kind_adopt, kind_adopt, kind_alloc_of_lt ht, hk]
    exact List.mem_map.2 ⟨a.size, by simp, by rw [name_adopt, name_adopt, name_alloc_self]⟩

theorem answered_addBase {contract : NodeId} (base : NodeId) (hc : contract < a.size) :
    a.Answered ⟨contract, .bases, a.name base⟩ (a.addBase contract base) := by
  unfold addBase
  rw [lookup_bases]
  cases hfree : a.holder? ⟨contract, .bases, a.name base⟩ with
  | some n => exact .inl ⟨n, hfree, rfl⟩
  | none =>
    refine .inr ⟨hfree, ⟨_, rfl⟩, ?_⟩
    rintro ⟨decl, hk⟩
    refine ⟨base, ?_⟩
    dsimp only
    rw [members_updateKind _ (by rwa [size_adopt]), kind_adopt, hk]
    exact List.mem_map.2 ⟨base, by simp, by rw [name_adopt]⟩

theorem answered_newMethod {contract : NodeId} {decl : Contract} (name : String) (position : Position)
    (hk : a.kind contract = .contract decl) :
    a.Answered ⟨contract, .methods, name⟩ (a.newMethod contract name position) := by
  have hc : contract < a.size := lt_size_of_kind (by rw [hk]; simp [NodeKind.level])
  unfold newMethod
  rw [contract?_eq_some.2 hk, if_neg (by exact Bool.false_ne_true), lookup_methods]
  cases hfree : a.holder? ⟨contract, .methods, name⟩ with
  | some n => exact .inl ⟨n, hfree, rfl⟩
  | none =>
    refine .inr ⟨hfree, ⟨_, rfl⟩, fun _ => ⟨a.size, ?_⟩⟩
    dsimp only [fst_alloc, insertMethod]
    rw [members_new a hc, hk]
    exact mem_entries_insert ..

theorem answered_insertNamedArg {args : NodeId} (name : String) (item : NodeId)
    (ha : args < a.size) :
    a.Answered ⟨args, .labels, name⟩ (a.insertNamedArg args name item) := by
  unfold insertNamedArg
  rw [lookup_labels]
  cases hfree : a.holder? ⟨args, .labels, name⟩ with
  | some n => exact .inl ⟨n, hfree, rfl⟩
  | none =>
    refine .inr ⟨hfree, ⟨_, rfl⟩, ?_⟩
    rintro ⟨items, hk⟩
    refine ⟨item, ?_⟩
    dsimp only
    rw [members_updateKind _ (by rwa [size_adopt]), kind_adopt, hk]
    exact mem_entries_insert ..

/-- An operation with a rule of uniqueness gives the name to whoever asks first. -/
theorem answered_run {op : Operation} {entry : Entry} (h : op.Applies a)
    (he : op.request? a = some entry) (hs : entry.space = .methods → entry.Suits a) :
    a.Answered entry (op.run a) := by
  cases op with
  | newScript package name path =>
    cases he
    exact (answered_newScript a name path (h _ (by simp [Operation.nodes]))).plain
  | declareType script type =>
    obtain ⟨package, hpackage, rfl⟩ := Option.map_eq_some_iff.1 he
    exact answered_declareType a type hpackage
  | newPackageRef script name package position =>
    cases he
    exact (answered_newPackageRef a name package position (h _ (by simp [Operation.nodes]))).plain
  | newEnumValue enum name value position =>
    cases he
    exact (answered_newEnumValue a name value position (h _ (by simp [Operation.nodes]))).plain
  | newField table name type position =>
    cases he
    exact (answered_newField a name type position (h _ (by simp [Operation.nodes]))).plain
  | addBase contract base =>
    cases he
    exact answered_addBase a base (h _ (by simp [Operation.nodes]))
  | newMethod contract name position =>
    cases he
    obtain ⟨decl, hk⟩ := hs rfl
    exact (answered_newMethod a name position hk).plain
  | insertNamedArg args name item =>
    cases he
    exact answered_insertNamedArg a name item (h _ (by simp [Operation.nodes]))
  | _ => cases he

/-- The other operations are never refused. -/
theorem run_ok_of_request? {op : Operation} (he : op.request? a = none) : (op.run a).1 = .ok () := by
  cases op with
  | declareType script type =>
    have hnone : a.packageOf script = none := Option.map_eq_none_iff.1 he
    show (a.declareType script type).1 = _
    unfold declareType
    rw [hnone]
  | _ => first | rfl | cases he

theorem newMethod_unchanged {contract : NodeId} {position : Position}
    (h : (a.newMethod contract name position).1 = .error n) :
    (a.newMethod contract name position).2 = a := by
  unfold newMethod at h ⊢
  split
  · rfl
  · rename_i hsome
    rw [if_neg hsome] at h
    split
    · rfl
    · rename_i hfree
      rw [hfree] at h
      cases h

/-- An operation that is refused changes nothing. In a container of the right kind it is refused for the
member that has the name. -/
theorem run_error {op : Operation} (h : op.Applies a) (he : (op.run a).1 = .error n) :
    (op.run a).2 = a ∧ ∃ entry, op.request? a = some entry ∧
      (entry.Suits a → a.holder? entry = some n) := by
  cases hentry : op.request? a with
  | none =>
    rw [run_ok_of_request? a hentry] at he
    cases he
  | some entry =>
    refine ⟨?_, entry, rfl, fun hs => ((answered_run a h hentry fun _ => hs).of_error he).2⟩
    by_cases hspace : entry.space = .methods
    · cases op with
      | newMethod contract name position => exact newMethod_unchanged a (plain_error he)
      | declareType script type =>
        obtain ⟨package, -, rfl⟩ := Option.map_eq_some_iff.1 hentry
        cases hspace
      | _ => cases hentry <;> cases hspace
    · exact ((answered_run a h hentry fun hm => absurd hm hspace).of_error he).1

end

/-! ## Any number of operations -/

section

variable {entry : Entry}

/-- Who has a name keeps it. -/
theorem Advance.holder? (h : a.Advance b) (ha : a.Consistent) (hn : a.holder? entry = some n) :
    b.holder? entry = some n := by
  rw [holder?_eq_some ha] at hn
  rw [holder?_eq_some (h.consistent ha)]
  rcases h.members ha entry.container entry.space with heq | ⟨key, m, hperm, -, -⟩
  · exact heq ▸ hn
  · exact hperm.mem_iff.2 (List.mem_cons_of_mem _ hn)

/-- What every change keeps, operations keep. -/
theorem Advances.keep {I : Arena → Prop} (h : a.Advances b)
    (hI : ∀ a b : Arena, a.Consistent → a.Advance b → I a → I b) (ha : a.Consistent) (hi : I a) :
    b.Consistent ∧ I b := by
  induction h with
  | refl => exact ⟨ha, hi⟩
  | tail _ hstep ih => exact ⟨hstep.consistent ih.1, hI _ _ ih.1 hstep ih.2⟩

theorem Constructs.keep {I : Arena → Prop} (h : a.Constructs b)
    (hI : ∀ a b : Arena, a.Consistent → a.Advance b → I a → I b) (ha : a.Consistent) (hi : I a) :
    b.Consistent ∧ I b := by
  induction h with
  | refl => exact ⟨ha, hi⟩
  | step op _ happlies ih => exact (advances_run _ ih.1 happlies).keep hI ih.1 ih.2

theorem Constructs.consistent (h : a.Constructs b) (ha : a.Consistent) : b.Consistent :=
  (h.keep (I := fun _ => True) (fun _ _ _ _ _ => trivial) ha trivial).1

/-- Sixteen bits are enough for the places in a container with at most 65535 members. -/
theorem toNat_place {i size : Nat} (hi : i < size) (hs : size ≤ 65535) : (UInt16.ofNat i).toNat = i :=
  UInt16.toNat_ofNat_of_lt' (Nat.lt_of_lt_of_le hi (Nat.le_succ_of_le hs))

theorem Consistent.field_id (h : a.Consistent) {decl : Table} (hk : a.kind m = .table decl)
    (hs : decl.fields.size ≤ 65535) {i : Nat} (hi : decl.fields[i]? = some n) :
    ∃ field, a.field? n = some field ∧ field.id.toNat = i := by
  obtain ⟨type, hn⟩ := h.fields m decl hk i n hi
  obtain ⟨hlt, -⟩ := Array.getElem?_eq_some_iff.1 hi
  exact ⟨_, field?_eq_some.2 hn, toNat_place hlt hs⟩

theorem Consistent.method_id (h : a.Consistent) {decl : Contract} (hk : a.kind m = .contract decl)
    (hs : decl.methods.size ≤ 65535) {i : Nat} (hi : decl.methods.nodes[i]? = some n) :
    ∃ method, a.method? n = some method ∧ method.id.toNat = i := by
  obtain ⟨params, results, hn⟩ := h.methods m decl hk i n hi
  obtain ⟨hlt, -⟩ := List.getElem?_eq_some_iff.1 hi
  rw [Registry.length_nodes] at hlt
  exact ⟨_, method?_eq_some.2 hn, toNat_place hlt hs⟩

/-- Whatever operations have built an arena, and whatever operations go on from there: containers and their
members agree; the numbers of fields and methods are their places; a bound reference stays bound to what it is
bound to; an operation that is refused changes nothing and is refused for the first registered member with the
name; an operation that asks for a name and is not refused was the first, and whoever has a name keeps it. -/
theorem constructs_consistent (ha : empty.Constructs a) (hb : a.Constructs b) :
    a.Consistent ∧
    (∀ table decl, a.kind table = .table decl → decl.fields.size ≤ 65535 →
      ∀ i n, decl.fields[i]? = some n → ∃ field, a.field? n = some field ∧ field.id.toNat = i) ∧
    (∀ contract decl, a.kind contract = .contract decl → decl.methods.size ≤ 65535 →
      ∀ i n, decl.methods.nodes[i]? = some n →
        ∃ method, a.method? n = some method ∧ method.id.toNat = i) ∧
    (∀ n path target, a.reference? n = some ⟨path, some target⟩ →
      b.reference? n = some ⟨path, some target⟩) ∧
    (∀ op : Operation, op.Applies a → ∀ n, (op.run a).1 = .error n →
      (op.run a).2 = a ∧ ∃ entry, op.request? a = some entry ∧
        (entry.Suits a → a.holder? entry = some n)) ∧
    (∀ op : Operation, op.Applies a → ∀ entry, op.request? a = some entry → entry.Suits a →
      (op.run a).1 = .ok () → a.holder? entry = none ∧ ∃ n, (op.run a).2.holder? entry = some n) ∧
    ∀ entry n, a.holder? entry = some n → b.holder? entry = some n := by
  have hcons := ha.consistent consistent_empty
  refine ⟨hcons, fun _ _ hk hs _ _ hi => hcons.field_id hk hs hi,
    fun _ _ hk hs _ _ hi => hcons.method_id hk hs hi, ?_, ?_, ?_, ?_⟩
  · intro n path target hn
    rw [reference?_eq_some] at hn ⊢
    exact (hb.keep (I := fun c => c.kind n = .typeRef ⟨path, some target⟩)
      (fun _ _ _ hstep => hstep.reference) hcons hn).2
  · exact fun op happlies n he => run_error a happlies he
  · intro op happlies entry hentry hs hok
    obtain ⟨hfree, n, hn⟩ := (answered_run a happlies hentry fun _ => hs).of_ok hs hok
    exact ⟨hfree, n, (holder?_eq_some (Constructs.consistent (.step op .refl happlies) hcons)).2 hn⟩
  · exact fun entry n hn => (hb.keep (I := fun c => c.holder? entry = some n)
      (fun _ _ hc hstep => hstep.holder? hc) hcons hn).2

/-- Two values of one name: the second one is refused for the first one. -/
theorem constructs_consistent_enum :
    ∃ a : Arena, empty.Constructs a ∧ a.Consistent ∧
      ∃ n, (Operation.run a (.newEnumValue 2 "A" 1 .unknown)).1 = .error n ∧
        a.holder? ⟨2, .values, "A"⟩ = some n := by
  have h : empty.Constructs _ := ((((Constructs.refl.step (.newPackage "p") (by decide)).step
    (.newScript 0 "s" none) (by decide)).step (.newEnum 1 "E" .standard .unknown) (by decide)).step
    (.newEnumValue 2 "A" 0 .unknown) (by decide))
  obtain ⟨hcons, -, -, -, hrefused, -⟩ := constructs_consistent h .refl
  obtain ⟨-, entry, hentry, hholder⟩ := hrefused (.newEnumValue 2 "A" 1 .unknown) (by decide) 3 rfl
  cases hentry
  exact ⟨_, h, hcons, 3, rfl, hholder ⟨_, rfl⟩⟩

end

end Arena

end SchemaLang
