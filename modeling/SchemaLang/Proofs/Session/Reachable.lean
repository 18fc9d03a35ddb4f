import SchemaLang.Proofs.Session.Compiling
import SchemaLang.Proofs.Text.Encoding

/-!
# The sessions that calls of the compiler lead to

A session starts empty, and every call of the compiler takes it on, whether the call succeeds or not
and whatever the sources are at that time.

* `compile_atomic`: what one call does to a session, and what later calls make of it.
* `link_of_cached`: no link of a linked package dangles.
-/

namespace SchemaLang

open Arena

namespace Session

variable {s t u : Session} {provider : Provider} {name : String}

/-! ## Runs -/

/-- A call of the compiler ends in the session `t`, whether it succeeds or not. -/
def Call (provider : Provider) (name : String) (s t : Session) : Prop :=
  (∃ q, compile provider name s = .ok q t) ∨ ∃ failure, compile provider name s = .error failure t

/-- The second session comes after the first one, by any calls. -/
def Later : Session → Session → Prop :=
  Relation.ReflTransGen fun s t => ∃ provider name, Call provider name s t

/-- The sessions that calls lead to from the empty one. -/
def Reachable (s : Session) : Prop :=
  Later empty s

theorem atomic_compile (hs : Sound s) (provider : Provider) (name : String) :
    Atomic name (compile provider name) s :=
  honest_package provider provider.depth name .unknown s hs

theorem Call.follows (hs : Sound s) (h : Call provider name s t) : s.Follows t := by
  have hatomic := atomic_compile hs provider name
  rcases h with ⟨q, hq⟩ | ⟨failure, hf⟩
  · exact (hatomic.leads.ok hq).1
  · exact hatomic.leads.error hf

theorem Later.follows (h : s.Later t) (hs : Sound s) : s.Follows t := by
  induction h with
  | refl => exact ⟨.refl s, hs, rfl⟩
  | tail _ hcall ih =>
    obtain ⟨provider, name, hcall⟩ := hcall
    have hstep := hcall.follows ih.sound
    exact ⟨ih.advances.trans hstep.advances ih.sound.anchored, hstep.sound,
      hstep.loading.trans ih.loading⟩

theorem Reachable.sound (h : s.Reachable) : Sound s :=
  (Later.follows h sound_empty).sound

theorem Reachable.loading (h : s.Reachable) : s.catalogue.loading = [] :=
  (Later.follows h sound_empty).loading

theorem reachable_of_ok {q : NodeId} (h : compile provider name empty = .ok q t) :
    t.Reachable ∧ t.package? name = some q :=
  ⟨.single ⟨provider, name, Or.inl ⟨q, h⟩⟩,
    ((atomic_compile sound_empty provider name).leads.ok h).2⟩

/-- A package that is linked is given from the session. -/
theorem compile_of_cached {q : NodeId} (h : s.package? name = some q) (provider : Provider) :
    compile provider name s = .ok q s := by
  rcases package_cases provider provider.depth name .unknown s with ⟨q', hq', hrun⟩ | ⟨hnone, -⟩
  · have he : some q' = some q := hq'.symm.trans h
    cases he
    exact hrun
  · have he : s.package? name = none := hnone
    rw [h] at he
    cases he

/-! ## A small built-in package

The least that a built-in package has to declare, as one script with a token on every line. It shows
that the theorems below speak of sessions that come about. -/

/-- Reads a script whose tokens are given. -/
def readFeed {σ : Type} (importer : Importer σ) (script : NodeId) (file package : String)
    (feed : Feed) : EStateM Diagnostic (Arena × σ) Unit :=
  fun (arena, host) =>
    match Parse.script ⟨script, file, package, feed.size + 1, importer⟩
        ⟨feed, [], [], arena, host⟩ with
    | .ok () reading => .ok () (reading.arena, reading.host)
    | .error failure reading => .error failure (reading.arena, reading.host)

theorem readScript_of_feed {σ : Type} {importer : Importer σ} {script : NodeId}
    {source : Text.Source} {file package : String} {feed : Feed} {a : Arena} {host : σ}
    (hfile : a.scriptFile script = file) (hpackage : (a.packageName? script).getD "" = package)
    (hfeed : Feed.ofLexing (Lexing.ofSource file source) = feed) :
    readScript importer script source (a, host) =
      readFeed importer script file package feed (a, host) := by
  subst hfile hpackage hfeed
  rfl

/-- A built-in package of one script, and the tokens of the script. -/
structure Sample where
  bytes : ByteArray
  tokens : List Token
  lexing_eq : Lexing.ofSource "a" (.ofBytes bytes) = ⟨tokens, none⟩

namespace Sample

def sources (sample : Sample) : Provider where
  find _ := [⟨""⟩]
  list _ := .ok [⟨"a"⟩]
  read _ := .ok sample.bytes
  depth := 1

/-- The session in which the script is read. -/
def begun : Session :=
  empty.opened Prelude.packageName

/-- The arena with the script, empty. -/
def blank : Arena :=
  (begun.1.newScript 0 "a" (some ⟨"a"⟩)).2

theorem newScript_eq : begun.1.newScript 0 "a" (some ⟨"a"⟩) = (.ok 1, blank) := rfl

variable (sample : Sample)

/-- What reading the tokens gives. -/
@[irreducible] def read : EStateM.Result Diagnostic (Arena × Catalogue) Unit :=
  readFeed (Compile.package sample.sources 0) 1 "a" Prelude.packageName
    (.ofLexing ⟨sample.tokens, none⟩) (blank, begun.2)

theorem readScript_eq : readScript (Compile.package sample.sources 0) 1 (.ofBytes sample.bytes)
    (blank, begun.2) = sample.read := by
  have hfile : blank.scriptFile 1 = "a" := by decide +kernel
  have hpackage : (blank.packageName? 1).getD "" = Prelude.packageName := by decide +kernel
  unfold read
  exact readScript_of_feed hfile hpackage (congrArg Feed.ofLexing sample.lexing_eq)

theorem readFile_eq : Compile.readFile (Compile.package sample.sources 0) 0 "a" (some ⟨"a"⟩)
    (.ofBytes sample.bytes) begun = sample.read := by
  have hbegun : begun = (begun.1, begun.2) := rfl
  unfold Compile.readFile
  rw [hbegun]
  simp only [newScript_eq]
  exact sample.readScript_eq

theorem readPath_eq : Compile.readPath sample.sources (Compile.package sample.sources 0) 0 ⟨"a"⟩
    begun = sample.read := by
  have hname : (⟨"a"⟩ : Path).scriptName = "a" := by decide +kernel
  have hbytes : sample.sources.read ⟨"a"⟩ = .ok sample.bytes := rfl
  unfold Compile.readPath
  rw [hbytes]
  simp only [hname]
  exact sample.readFile_eq

/-- What reading the script and linking the package gives. -/
@[irreducible] def linked : EStateM.Result Diagnostic Session Unit :=
  match sample.read with
  | .ok () x => Compile.linkPackage Prelude.packageName 0 x
  | .error failure x => .error failure x

theorem linked_eq {x : Session} {a : Arena} (hread : sample.read = .ok () x)
    (hlink : Link.package 0 (some 0) x.1 = .ok () a) : sample.linked = .ok () (a, x.2) := by
  unfold linked
  rw [hread]
  simp only [Compile.linkPackage, beq_self_eq_true, if_true, hlink]

theorem steps_eq : (do
    Compile.readSources sample.sources (Compile.package sample.sources 0) 0 (.files [⟨"a"⟩])
    Compile.linkPackage Prelude.packageName 0 : Compile Unit) begun = sample.linked := by
  have hread := sample.readPath_eq
  unfold linked
  generalize sample.read = result at hread
  cases result with
  | ok _ x => exact bind_ok (forM_cons_ok [] hread)
  | error failure x => exact bind_error (forM_cons_error [] hread)

/-- The package is not linked and can be found, so it is compiled. -/
theorem compile_eq_load : compile sample.sources Prelude.packageName empty =
    Compile.load sample.sources (Compile.package sample.sources 0) Prelude.packageName
      (.files [⟨"a"⟩]) empty := by
  have hloaded : empty.2.loaded[Prelude.packageName]? = none := rfl
  have hcycle : empty.2.cycle? Prelude.packageName = none := rfl
  have hlocate : sample.sources.locate Prelude.packageName = .ok (.files [⟨"a"⟩]) := rfl
  have hdepth : sample.sources.depth = 1 := rfl
  unfold compile
  rw [hdepth]
  unfold Compile.package
  simp only [hloaded, hcycle, hlocate]

/-- Compiling the package is reading its script and linking it. -/
theorem compile_eq {x : Session} (h : sample.linked = .ok () x) :
    compile sample.sources Prelude.packageName empty =
      .ok 0 (x.1, x.2.leave.add Prelude.packageName 0) := by
  have hsteps : (do
      Compile.readSources sample.sources (Compile.package sample.sources 0) empty.1.size
        (.files [⟨"a"⟩])
      Compile.linkPackage Prelude.packageName empty.1.size : Compile Unit)
        (empty.opened Prelude.packageName) = .ok () x := sample.steps_eq.trans h
  rw [compile_eq_load, load_eq, hsteps]
  rfl

theorem compile_eq_error {failure : Diagnostic} {x : Session} (h : sample.linked = .error failure x) :
    ∃ t, compile sample.sources Prelude.packageName empty = .error failure t := by
  have hsteps : (do
      Compile.readSources sample.sources (Compile.package sample.sources 0) empty.1.size
        (.files [⟨"a"⟩])
      Compile.linkPackage Prelude.packageName empty.1.size : Compile Unit)
        (empty.opened Prelude.packageName) = .error failure x := sample.steps_eq.trans h
  have hload := load_eq sample.sources (Compile.package sample.sources 0) Prelude.packageName
    (.files [⟨"a"⟩]) empty
  rw [hsteps] at hload
  exact ⟨_, sample.compile_eq_load.trans hload⟩

end Sample

/-- The source with a word on every line. -/
def lines (words : List (String × TokenKind)) : ByteArray :=
  (String.join (words.map fun entry => entry.1 ++ "\n")).toUTF8

def lineTokens (words : List (String × TokenKind)) : List Token :=
  (words.map (fun entry => entry.2) ++ [TokenKind.eof]).zipIdx.map fun entry =>
    ⟨entry.1, ⟨"a", .ofNat (entry.2 + 1), 1⟩⟩

namespace Words

/-- The characters of a source with a word on every line. -/
def chars (words : List (String × TokenKind)) : List Char :=
  words.flatMap fun entry => entry.1.toList ++ ['\n']

theorem ofBytes_lines (words : List (String × TokenKind)) :
    Text.Source.ofBytes (lines words) = ⟨chars words, true⟩ := by
  have htext : (String.join (words.map fun entry => entry.1 ++ "\n")).toList = chars words := by
    rw [String.toList_join, List.flatMap_map, chars]
    exact congrArg (words.flatMap ·) (funext fun entry => String.toList_append)
  rw [← Text.Source.ofBytes_utf8Encode, ← htext, String.utf8Encode_toList]
  rfl

/-- It is enough to read the characters: they need not be encoded and decoded. -/
theorem lexing_lines {words : List (String × TokenKind)}
    (h : (Lexing.ofSource "a" ⟨chars words, true⟩).tokens = lineTokens words ∧
      (Lexing.ofSource "a" ⟨chars words, true⟩).failure = none) :
    Lexing.ofSource "a" (.ofBytes (lines words)) = ⟨lineTokens words, none⟩ := by
  rw [ofBytes_lines, ← h.1, ← h.2]

end Words

/-- Whether a step succeeds in a state that passes a check. -/
def succeedsWith {σ : Type} (check : σ → Bool) : EStateM.Result Diagnostic σ Unit → Bool
  | .ok _ x => check x
  | .error _ _ => false

theorem succeedsWith_eq_true {σ : Type} {check : σ → Bool} {result : EStateM.Result Diagnostic σ Unit}
    (h : succeedsWith check result = true) : ∃ x, result = .ok () x ∧ check x = true := by
  cases result with
  | ok _ x => exact ⟨x, rfl, h⟩
  | error failure x => cases h

namespace Small

/-- The tokens of the script as they are written. -/
def words : List (String × TokenKind) :=
  let word (name : String) := (name, TokenKind.ident name)
  let sign (c : Char) := (String.singleton c, TokenKind.char c)
  let table := ("table", TokenKind.keyword .table)
  [("enum", .keyword .enum), word Prelude.attrTarget, sign '\x7b']
    ++ (Site.all.flatMap fun site =>
      [word site.name, sign '(', ("1", .int 1), sign ')', sign ',']).dropLast
    ++ [sign '\x7d', table, word Prelude.attrUsage, sign '\x7b', word Prelude.targetField,
      word Prelude.errorMarker, sign ';', sign '\x7d', table, word Prelude.structMarker, sign '\x7b',
      sign '\x7d', table, word Prelude.errorMarker, sign '\x7b', sign '\x7d']

@[irreducible] def bytes : ByteArray :=
  lines words

def tokens : List Token :=
  lineTokens words

theorem lexing_eq : Lexing.ofSource "a" (.ofBytes bytes) = ⟨tokens, none⟩ := by
  unfold bytes
  exact Words.lexing_lines (by decide +kernel)

def sample : Sample := ⟨bytes, tokens, lexing_eq⟩

def sources : Provider := sample.sources

def begun : Session := Sample.begun

def blank : Arena := Sample.blank

/-- What reading the tokens gives. -/
@[irreducible] def read : EStateM.Result Diagnostic (Arena × Catalogue) Unit :=
  sample.read

theorem newScript_eq : begun.1.newScript 0 "a" (some ⟨"a"⟩) = (.ok 1, blank) := rfl

theorem readScript_eq :
    readScript (Compile.package sources 0) 1 (.ofBytes bytes) (blank, begun.2) = read := by
  unfold read
  exact sample.readScript_eq

theorem readFile_eq : Compile.readFile (Compile.package sources 0) 0 "a" (some ⟨"a"⟩)
    (.ofBytes bytes) begun = read := by
  unfold read
  exact sample.readFile_eq

theorem readPath_eq :
    Compile.readPath sources (Compile.package sources 0) 0 ⟨"a"⟩ begun = read := by
  unfold read
  exact sample.readPath_eq

/-- The type of the field names a table when the script is read, and is bound to the last table when the
package is linked. -/
theorem read_ok : ∃ x a, read = .ok () x ∧ 1 ∈ x.1.scriptsOf 0 ∧ (x.1.node 15).script = some 1 ∧
    x.1.reference? 15 = some ⟨[Prelude.errorMarker], none⟩ ∧
    Link.package 0 (some 0) x.1 = .ok () a ∧
    a.reference? 15 = some ⟨[Prelude.errorMarker], some 18⟩ ∧ 15 ∈ a.walk 0 := by
  have h : succeedsWith (fun x => decide (1 ∈ x.1.scriptsOf 0 ∧ (x.1.node 15).script = some 1 ∧
      x.1.reference? 15 = some ⟨[Prelude.errorMarker], none⟩) &&
        succeedsWith (fun a => decide (a.reference? 15 = some ⟨[Prelude.errorMarker], some 18⟩ ∧
          15 ∈ a.walk 0)) (Link.package 0 (some 0) x.1)) read = true := by
    decide +kernel
  obtain ⟨x, hx, hcheck⟩ := succeedsWith_eq_true h
  rw [Bool.and_eq_true, decide_eq_true_iff] at hcheck
  obtain ⟨⟨hscript, hown, hreference⟩, hlinks⟩ := hcheck
  obtain ⟨a, ha, hbound⟩ := succeedsWith_eq_true hlinks
  exact ⟨x, a, hx, hscript, hown, hreference, ha, of_decide_eq_true hbound⟩

theorem compile_ok : ∃ t, compile sources Prelude.packageName empty = .ok 0 t ∧
    t.arena.reference? 15 = some ⟨[Prelude.errorMarker], some 18⟩ ∧ 15 ∈ t.arena.walk 0 := by
  obtain ⟨x, a, hx, -, -, -, ha, hbound⟩ := read_ok
  unfold read at hx
  exact ⟨(a, x.2.leave.add Prelude.packageName 0), sample.compile_eq (sample.linked_eq hx ha), hbound⟩

end Small

/-! ## One call -/

/-- Two catalogues that give the same answers, one of which has gone on from the other, are the
same. -/
theorem Advances.loaded_eq (h : Advances s t)
    (heq : ∀ other, t.package? other = s.package? other) : t.2.loaded = s.2.loaded := by
  rcases h.grows with he | hlt
  · exact he
  · have hsize : t.2.loaded.size = s.2.loaded.size :=
      (Std.TreeMap.Equiv.of_forall_constGet?_eq heq).size_eq
    omega

/-- A call keeps every node and every linked package, and is done with what it compiles. A failed
call does not link its package, and where it links no other package either nothing is changed. After
a call that succeeds, every later call gives the same package and changes nothing. -/
theorem compile_atomic (hs : s.Reachable) (provider : Provider) (name : String) :
    (∀ t, Call provider name s t →
      (s.arena.size ≤ t.arena.size ∧ ∀ n, n < s.arena.size → t.arena.node n = s.arena.node n) ∧
      (∀ other q, s.package? other = some q → t.package? other = some q) ∧
      t.catalogue.loading = []) ∧
    (∀ failure t, compile provider name s = .error failure t →
      t.package? name = none ∧
      ((∀ other, s.package? other = none → t.package? other = none) → t = s)) ∧
    ∀ q t, compile provider name s = .ok q t →
      ∀ later, t.Later later → ∀ provider', compile provider' name later = .ok q later := by
  have hatomic := atomic_compile hs.sound provider name
  refine ⟨fun t ht => ?_, fun failure t ht => ?_, fun q t ht later hlater provider' => ?_⟩
  · have hfollows := ht.follows hs.sound
    exact ⟨⟨hfollows.advances.keeps.size_le, hfollows.advances.keeps.node_eq⟩,
      hfollows.advances.loaded, hfollows.loading.trans hs.loading⟩
  · obtain ⟨hnone, hsame⟩ := hatomic.failed failure t ht
    have hadvances := (hatomic.leads.error ht).advances
    refine ⟨hnone, fun hnew => hsame (hadvances.loaded_eq fun other => ?_)⟩
    cases hother : s.package? other with
    | none => exact hnew other hother
    | some q => exact hadvances.loaded other q hother
  · obtain ⟨hfollows, hname⟩ := hatomic.leads.ok ht
    have hkept := (hlater.follows hfollows.sound).advances.loaded name q hname
    exact compile_of_cached hkept provider'

theorem compile_atomic_small : empty.Reachable ∧
    ∃ t, compile Small.sources Prelude.packageName empty = .ok 0 t ∧ t.catalogue.loading = [] ∧
      ∀ later, t.Later later → ∀ provider, compile provider Prelude.packageName later =
        .ok 0 later := by
  have hempty : empty.Reachable := .refl
  obtain ⟨t, ht, -⟩ := Small.compile_ok
  obtain ⟨hcall, -, hok⟩ := compile_atomic hempty Small.sources Prelude.packageName
  exact ⟨hempty, t, ht, (hcall t (Or.inl ⟨0, ht⟩)).2.2, hok 0 t ht⟩

/-! ## Links -/

/-- A node that can be reached from a linked package is settled. -/
theorem settled_of_reaches {settled : NodeId → Prop} {a : Arena} {p n : Nat}
    (hc : a.ClosedUnder settled) (hp : settled p) (h : a.Reaches p n) : settled n := by
  induction h with
  | refl => exact hp
  | tail _ hchild ih => exact hc.child ih hchild

/-- What a walk of a linked package visits, or belongs to it, is settled, but for methods that a
package which failed has left behind. -/
theorem settled_or_method {cached settled : NodeId → Prop} {a : Arena} {p n : Nat}
    (h : Settled cached settled a) (hp : cached p) (hn : n ∈ a.walk p ∨ a.home n = some p) :
    settled n ∨ (a.method? n).isSome := by
  rcases hn with hn | hn
  · exact Or.inl (settled_of_reaches h.closed (h.package p hp).1 (reaches_of_mem_walk hn))
  · exact h.whole n p hn hp

/-- Every number in a linked package, and in every node that a walk of it visits, is that of a node
that belongs to a linked package. -/
theorem link_of_cached (hs : s.Reachable) {p : NodeId} (hp : s.package? name = some p) {n l : NodeId}
    (hn : n = p ∨ n ∈ s.arena.walk p) (hl : l ∈ (s.arena.node n).links) :
    l < s.arena.size ∧ ∃ q other, s.arena.packageOf l = some q ∧ s.package? other = some q := by
  obtain ⟨settled, hsettled⟩ := hs.sound.settled
  have hcached : s.2.Caches p := Catalogue.caches_iff.2 ⟨name, hp⟩
  have hsp : settled p := (hsettled.package p hcached).1
  have hsn : settled n := by
    rcases hn with rfl | hn
    · exact hsp
    · exact settled_of_reaches hsettled.closed hsp (reaches_of_mem_walk hn)
  obtain ⟨q, hq, hcq⟩ := hsettled.home l (hsettled.closed n l hsn hl)
  obtain ⟨other, hother⟩ := Catalogue.caches_iff.1 hcq
  exact ⟨lt_size_of_home hq, q, other, packageOf_of_home hq, hother⟩

theorem link_of_cached_small : ∃ t : Session, t.Reachable ∧
    t.package? Prelude.packageName = some 0 ∧ 18 ∈ (t.arena.node 15).links ∧ 18 < t.arena.size ∧
      ∃ q other, t.arena.packageOf 18 = some q ∧ t.package? other = some q := by
  obtain ⟨t, ht, hreference, hwalk⟩ := Small.compile_ok
  obtain ⟨hreachable, hpackage⟩ := reachable_of_ok ht
  have hlink : 18 ∈ (t.arena.node 15).links := by
    have hkind := reference?_eq_some.1 hreference
    unfold kind at hkind
    refine Node.mem_links.2 (Or.inr (Or.inr (Or.inr ?_)))
    rw [hkind]
    exact List.mem_singleton.2 rfl
  exact ⟨t, hreachable, hpackage, hlink, link_of_cached hreachable hpackage (Or.inr hwalk) hlink⟩

end Session

end SchemaLang
