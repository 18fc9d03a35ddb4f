import SchemaLang.Proofs.Link.Tagging
import SchemaLang.Proofs.Session.History

/-!
# Tags of linked packages

The tags of a package agree with the markers when its attributes are placed, and neither changes later
(`Session.tags_agree`). The markers are those of the built-in package that the package was linked
against, which is the linked one for every package that imports it, directly or not
(`Session.Entered.builtin_eq`).
-/

namespace SchemaLang

open Arena Session

variable {s x : Session} {name : String} {p q n builtin : Nat} {b : Arena} {held : NodeId → Prop}

/-! ## The built-in package -/

/-- What the package needs was linked before it. -/
theorem Session.Entered.needs (h : s.Entered name p x b held) (hs : Sound s)
    (hq : q = p ∨ x.2.Caches q) {r : Nat} (hr : s.1.Needs q r) : r = p ∨ x.2.Caches r := by
  obtain ⟨n, hn, hk⟩ := hr
  have hheld : held n := (h.stays.whole n q hn hq).resolve_right fun hm => by
    rw [method?, hk] at hm
    cases hm
  obtain ⟨r', hr', hc⟩ := h.stays.home r (h.stays.closed.reference hheld (by
    rw [hk]
    exact List.mem_singleton_self _))
  obtain ⟨-, decl, hd⟩ := hs.linked (hs.ordered.closed q r (h.caches hq) ⟨n, hn, hk⟩)
  rw [home_of_package hd] at hr'
  exact Option.some.inj hr' ▸ hc

/-- A package was linked against the built-in package if that was linked before it, or is the package. -/
theorem Session.Entered.builtin_eq_of_caches (h : s.Entered name p x b held) (hs : Sound s)
    (hb : s.package? Prelude.packageName = some builtin)
    (hcached : builtin = p ∨ x.2.Caches builtin) : (x.2.builtin name p).getD p = builtin := by
  have hname : s.1.name p = name := hs.named name p h.entered
  have hcalled : s.1.name builtin = Prelude.packageName := hs.named _ _ hb
  unfold Catalogue.builtin
  by_cases he : name = Prelude.packageName
  · subst he
    rw [if_pos (beq_self_eq_true _)]
    exact Option.some.inj (h.entered.symm.trans hb)
  · have hother : x.2.Caches builtin := hcached.resolve_left fun e => he (by rw [← hname, ← e, hcalled])
    obtain ⟨other, hloaded⟩ := Catalogue.caches_iff.1 hother
    have hsame : other = Prelude.packageName :=
      (hs.named other builtin (h.loaded other builtin hloaded)).symm.trans hcalled
    rw [if_neg (by simpa using he), ← hsame, hloaded]
    rfl

/-- A package that needs the built-in package, directly or not, was linked against it. -/
theorem Session.Entered.builtin_eq (h : s.Entered name p x b held) (hs : Sound s)
    (hb : s.package? Prelude.packageName = some builtin)
    (hneeds : Relation.ReflTransGen s.1.Needs p builtin) :
    (x.2.builtin name p).getD p = builtin ∧ (builtin = p ∨ x.2.Caches builtin) := by
  have hcached : builtin = p ∨ x.2.Caches builtin := by
    clear hb
    induction hneeds with
    | refl => exact Or.inl rfl
    | tail _ hstep ih => exact h.needs hs ih hstep
  exact ⟨h.builtin_eq_of_caches hs hb hcached, hcached⟩

/-! ## Tags -/

/-- The tags of a package go on to agree with the markers. -/
theorem Session.Entered.tagsAgree (h : s.Entered name p x b held)
    (hb : builtin = p ∨ x.2.Caches builtin) {vocabulary : Vocabulary}
    (hv : Vocabulary.ofPackage b builtin = .ok vocabulary) (ht : b.TagsAgree vocabulary p) :
    Vocabulary.ofPackage s.1 builtin = .ok vocabulary ∧ s.1.TagsAgree vocabulary p := by
  have hbuiltin := (h.settled.package builtin hb).1
  obtain ⟨hvs, hfield, hname⟩ :=
    keepsVocabulary_of_nodes h.settled.closed h.kept hbuiltin vocabulary hv
  obtain ⟨package, _, hp, -, -, -, -, hstruct, herror⟩ := Vocabulary.ofPackage_eq_ok.1 hv
  have hmarker : ∀ {name : String} {t : NodeId}, package.types.find? name = some t → held t :=
    fun ht => h.settled.closed.type hbuiltin (package?_eq_some.1 hp) ht
  refine ⟨hvs, (Upholds.of_nodes h.settled.closed h.kept).tagsAgree hfield hname
    (h.settled.package p (Or.inl rfl)).1 (hmarker hstruct) (hmarker herror) (fun n hn hl => ?_) ht⟩
  have hheld := h.held_of_level hn hl
  exact ⟨hheld, (h.home_eq hheld).symm.trans hn, by rw [h.kept n hheld]⟩

/-! ## All sessions -/

/-- The tags of linked packages agree with the markers of the built-in package, where a package is the
built-in one or needs it: a table that carries the struct marker is tagged, a tagged table carries the
marker where that may stand on structs, and else the marker was moved to the script of the table or to the
package; and in the same way for enums and the error marker. -/
theorem Session.tags_agree (hs : s.Reachable) (hb : s.package? Prelude.packageName = some builtin)
    (hp : s.package? name = some p) (hneeds : Relation.ReflTransGen s.arena.Needs p builtin) :
    (∀ t decl, s.arena.home t = some p → s.arena.kind t = .table decl → ∃ vocabulary,
      Vocabulary.ofPackage s.arena builtin = .ok vocabulary ∧
        s.arena.TagAgrees vocabulary t vocabulary.structMarker .struct decl.isStruct) ∧
    ∀ e decl, s.arena.home e = some p → s.arena.kind e = .enum decl → ∃ vocabulary,
      Vocabulary.ofPackage s.arena builtin = .ok vocabulary ∧
        s.arena.TagAgrees vocabulary e vocabulary.errorMarker .enum decl.isError := by
  obtain ⟨x, b, held, h⟩ := hs.entered hp
  obtain ⟨hbuiltin, hcached⟩ := h.builtin_eq hs.sound hb hneeds
  obtain ⟨settled, hsettled⟩ := h.sound.settled
  obtain ⟨e, c, hpass⟩ := h.gathered.passes h.sound.anchored hsettled h.fresh h.linked
  rw [hbuiltin] at hpass
  have hagree : ∀ n, s.1.home n = some p → (s.1.kind n).level = 6 → ∃ vocabulary,
      Vocabulary.ofPackage s.1 builtin = .ok vocabulary ∧ s.1.TagsAgree vocabulary p := by
    intro n hn hl
    have hheld := h.held_of_level hn hl
    have hkind : s.1.kind n = b.kind n := congrArg Node.kind (h.kept n hheld)
    obtain ⟨v, hv, ht⟩ := hpass.tagsAgree hcached (hsettled.within hpass.within h.fresh)
      ((h.home_eq hheld).symm.trans hn) (hkind ▸ hl)
    exact ⟨v, h.tagsAgree hcached hv ht⟩
  refine ⟨fun t decl hn hk => ?_, fun t decl hn hk => ?_⟩
  · obtain ⟨v, hv, ht⟩ := hagree t hn (congrArg NodeKind.level hk)
    exact ⟨v, hv, ht.struct t decl hn hk⟩
  · obtain ⟨v, hv, ht⟩ := hagree t hn (congrArg NodeKind.level hk)
    exact ⟨v, hv, ht.error t decl hn hk⟩

/-! ## A built-in package whose markers move -/

namespace Session.Words

def word (name : String) : String × TokenKind := (name, .ident name)

def sign (c : Char) : String × TokenKind := (String.singleton c, .char c)

def number (value : Nat) : String × TokenKind := (toString value, .int (Int64.ofNat value))

def usage (mask : Nat) : List (String × TokenKind) :=
  [sign '@', word Prelude.attrUsage, sign '(', number mask, sign ')']

def table (name : String) (fields : List (String × TokenKind)) : List (String × TokenKind) :=
  [("table", .keyword .table), word name, sign '\x7b'] ++ fields ++ [sign '\x7d']

/-- The declarations that a built-in package needs, a struct and an enum that carries the error marker.
The bit of scripts is 2, and that of all other sites is 1. The mask is that of both markers. -/
def marked (mask : Nat) : List (String × TokenKind) :=
  [("enum", .keyword .enum), word Prelude.attrTarget, sign '\x7b']
    ++ (Site.all.flatMap fun site =>
      [word site.name, sign '(', number (if site = .script then 2 else 1), sign ')',
        sign ',']).dropLast
    ++ [sign '\x7d']
    ++ usage 1 ++ table Prelude.attrUsage [word Prelude.targetField, word Prelude.errorMarker, sign ';']
    ++ usage mask ++ table Prelude.structMarker [] ++ usage mask ++ table Prelude.errorMarker []
    ++ [("struct", .keyword .struct), word "Point", sign '\x7b', sign '\x7d']
    ++ [sign '@', word Prelude.errorMarker, ("enum", .keyword .enum), word "Fault", sign '\x7b',
      word "A", sign '(', number 0, sign ')', sign '\x7d']

end Session.Words

namespace Session.Moved

/-- The tokens of the script as they are written. Both markers belong on the script. -/
def words : List (String × TokenKind) :=
  Words.marked 2

@[irreducible] def bytes : ByteArray :=
  lines words

def tokens : List Token :=
  lineTokens words

theorem lexing_eq : Lexing.ofSource "a" (.ofBytes bytes) = ⟨tokens, none⟩ := by
  unfold bytes
  exact Words.lexing_lines (by decide +kernel)

def sample : Sample := ⟨bytes, tokens, lexing_eq⟩

/-- Whether the struct is tagged and carries no struct marker. -/
def bare (x : Session) : Bool :=
  match Vocabulary.ofPackage x.1 0 with
  | .ok vocabulary => (x.1.table? 31).any (·.isStruct) && x.1.home 31 == some 0 &&
      (x.1.attrsOfType 31 vocabulary.structMarker).isEmpty
  | .error _ => false

/-- The package is compiled, and the struct is tagged and carries no struct marker. -/
theorem compile_ok : ∃ (t : Session) (decl : Table) (vocabulary : Vocabulary), t.Reachable ∧
    t.package? Prelude.packageName = some 0 ∧
    Vocabulary.ofPackage t.arena 0 = .ok vocabulary ∧ t.arena.home 31 = some 0 ∧
    t.arena.kind 31 = .table decl ∧ decl.isStruct = true ∧
    t.arena.attrsOfType 31 vocabulary.structMarker = [] := by
  have h : succeedsWith bare sample.linked = true := by decide +kernel
  obtain ⟨x, hx, hbare⟩ := succeedsWith_eq_true h
  obtain ⟨hreachable, hpackage⟩ := reachable_of_ok (sample.compile_eq hx)
  unfold bare at hbare
  split at hbare
  · rename_i vocabulary hv
    simp only [Bool.and_eq_true, beq_iff_eq, List.isEmpty_iff] at hbare
    obtain ⟨⟨hstruct, hhome⟩, hnone⟩ := hbare
    obtain ⟨decl, hd, htag⟩ := (Option.any_eq_true _ _).1 hstruct
    exact ⟨_, decl, vocabulary, hreachable, hpackage, hv, hhome, table?_eq_some.1 hd, htag, hnone⟩
  · cases hbare

end Session.Moved

theorem Session.tags_agree_moved : ∃ (t : Session) (decl : Table) (vocabulary : Vocabulary),
    t.Reachable ∧ t.package? Prelude.packageName = some 0 ∧
    Vocabulary.ofPackage t.arena 0 = .ok vocabulary ∧ t.arena.kind 31 = .table decl ∧
    decl.isStruct = true ∧
    t.arena.TagAgrees vocabulary 31 vocabulary.structMarker .struct decl.isStruct := by
  obtain ⟨t, decl, v, hs, hp, hv, hn, hk, htag, -⟩ := Moved.compile_ok
  obtain ⟨v', hv', ht⟩ := (tags_agree hs hp hp .refl).1 31 decl hn hk
  cases hv.symm.trans hv'
  exact ⟨t, decl, v, hs, hp, hv, hk, htag, ht⟩

/-- A tag need not have its marker: the marker may have moved. -/
theorem Session.tags_without_markers : ¬ ∀ (s : Session) (name : String) (p builtin : NodeId)
    (vocabulary : Vocabulary), s.Reachable → s.package? Prelude.packageName = some builtin →
      s.package? name = some p → Vocabulary.ofPackage s.arena builtin = .ok vocabulary →
      (∀ t decl, s.arena.home t = some p → s.arena.kind t = .table decl →
        (decl.isStruct = true ↔ s.arena.attrsOfType t vocabulary.structMarker ≠ [])) ∧
      ∀ e decl, s.arena.home e = some p → s.arena.kind e = .enum decl →
        (decl.isError = true ↔ s.arena.attrsOfType e vocabulary.errorMarker ≠ []) := by
  intro hall
  obtain ⟨t, decl, v, hs, hp, hv, hn, hk, htag, hnone⟩ := Moved.compile_ok
  exact ((hall t _ 0 0 v hs hp hp hv).1 31 decl hn hk).1 htag hnone

end SchemaLang
