import SchemaLang.Proofs.Link.Relocating
import SchemaLang.Proofs.Session.Resolution

/-!
# Attributes of packages that are read

The second pass of linking is right about every package whose scripts were read and whose references
are bound, whoever answered its imports (`placeAttributes_correct`).
-/

namespace SchemaLang

open Arena Session

variable {p : Nat}

/-- Placing attributes is right about every package whose scripts were read and whose references were
bound: with any importer that leaves the package alone, and in particular with the compiler itself,
from every session. The built-in package is any one whose usage declaration may stand on tables and
structs. -/
theorem placeAttributes_correct :
    (∀ (σ : Type) (importer : Importer σ) (a : Arena) (hosting : Hosting importer a.size)
      (name : String) (host : σ) (files : List (String × Option Path × Text.Source)) (b : Arena)
      (host' : σ) (c : Arena) (builtin : NodeId), Anchored a →
      hosting.Inv (a.newPackage name).2 host →
      files.forM (fun file => Compile.readFile importer a.size file.1 file.2.1 file.2.2)
        ((a.newPackage name).2, host) = .ok () (b, host') →
      Link.bindReferences a.size b = .ok () c →
      (∀ vocabulary, Vocabulary.ofPackage c builtin = .ok vocabulary → c.UsageStays vocabulary) →
      c.PlacesExactly a.size builtin) ∧
    ∀ (s t : Session) (provider : Provider) (depth : Nat) (name : String) (sources : Sources)
      (c : Arena) (builtin : NodeId), s.Reachable → s.package? name = none →
      Compile.readSources provider (Compile.package provider depth) s.arena.size sources
        (s.opened name) = .ok () t →
      Link.bindReferences s.arena.size t.arena = .ok () c →
      (∀ vocabulary, Vocabulary.ofPackage c builtin = .ok vocabulary → c.UsageStays vocabulary) →
      c.PlacesExactly s.arena.size builtin := by
  refine ⟨?_, ?_⟩
  · intro σ importer a hosting name host files b host' c builtin ha hi hrun hbind hu
    have hrests : hosting.Rests ((a.newPackage name).2, host) :=
      ⟨hi, (gathered_newPackage ha name).2⟩
    obtain ⟨hi', hgathered⟩ := ((leads_readFiles hosting hrests files).ok hrun).2
    exact (hgathered.laid_of_bound (hosting.anchored hi') hbind).placesExactly builtin hu
  · intro s t provider depth name sources c builtin hs hname hrun hbind hu
    have hhonest := honest_package provider depth
    have hrests := hhonest.rests_opened hs.sound hname
    obtain ⟨hi', hgathered⟩ := ((leads_readSources _ provider hrests sources).ok hrun).2
    exact (hgathered.laid_of_bound ((hhonest.hosting hs.sound name).anchored hi')
      hbind).placesExactly builtin hu

/-! ## A small built-in package with usage declarations -/

namespace Session.Marked

/-- The tokens of the script as they are written. The bit of scripts is 2, and that of all other sites
is 1, so that the note on the last table belongs on the script. -/
def words : List (String × TokenKind) :=
  let word (name : String) := (name, TokenKind.ident name)
  let sign (c : Char) := (String.singleton c, TokenKind.char c)
  let number (value : Nat) := (toString value, TokenKind.int (Int64.ofNat value))
  let usage (mask : Nat) := [sign '@', word Prelude.attrUsage, sign '(', number mask, sign ')']
  let table (name : String) (fields : List (String × TokenKind)) :=
    [("table", TokenKind.keyword .table), word name, sign '\x7b'] ++ fields ++ [sign '\x7d']
  [("enum", .keyword .enum), word Prelude.attrTarget, sign '\x7b']
    ++ (Site.all.flatMap fun site =>
      [word site.name, sign '(', number (if site = .script then 2 else 1), sign ')',
        sign ',']).dropLast
    ++ [sign '\x7d']
    ++ usage 1 ++ table Prelude.attrUsage [word Prelude.targetField, word Prelude.errorMarker, sign ';']
    ++ usage 1 ++ table Prelude.structMarker [] ++ usage 1 ++ table Prelude.errorMarker []
    ++ usage 2 ++ table "Note" [] ++ [sign '@', word "Note"] ++ table "Noted" []

@[irreducible] def bytes : ByteArray :=
  lines words

def tokens : List Token :=
  lineTokens words

theorem lexing_eq : Lexing.ofSource "a" (.ofBytes bytes) = ⟨tokens, none⟩ := by
  unfold bytes
  exact Words.lexing_lines (by decide +kernel)

def sample : Sample := ⟨bytes, tokens, lexing_eq⟩

/-- Whether an attribute shows that usage declarations may stand on tables and structs. -/
def stays (attr : NodeId) (c : Arena) (vocabulary : Vocabulary) : Bool :=
  match c.usageMask vocabulary attr with
  | .ok mask => c.attrType attr == some vocabulary.usage && vocabulary.permits mask .table &&
      vocabulary.permits mask .struct
  | .error _ => false

/-- Whether the references are bound, and the vocabulary passes a check. -/
def binds (check : Arena → Vocabulary → Bool) (x : Session) : Bool :=
  match Link.bindReferences 0 x.1 with
  | .ok _ c =>
    match Vocabulary.ofPackage c 0 with
    | .ok vocabulary => check c vocabulary
    | .error _ => false
  | .error _ _ => false

theorem binds_eq_true {check : Arena → Vocabulary → Bool} {x : Session}
    (h : binds check x = true) : ∃ c vocabulary, Link.bindReferences 0 x.1 = .ok () c ∧
      Vocabulary.ofPackage c 0 = .ok vocabulary ∧ check c vocabulary = true := by
  unfold binds at h
  split at h
  · rename_i c hc
    split at h
    · rename_i vocabulary hv
      exact ⟨c, vocabulary, hc, hv, h⟩
    · cases h
  · cases h

theorem usageStays_of_stays {attr : NodeId} {c : Arena} {vocabulary : Vocabulary}
    (h : stays attr c vocabulary = true) : c.UsageStays vocabulary := by
  unfold stays at h
  split at h
  · rename_i mask hmask
    simp only [Bool.and_eq_true, beq_iff_eq] at h
    exact usageStays_of_usageMask hmask h.1.1 h.1.2 h.2
  · cases h

/-- The references of the package are bound once it is read, and the note stands on a table then. -/
theorem read_ok : ∃ x c vocabulary, sample.read = .ok () x ∧
    Link.bindReferences 0 x.1 = .ok () c ∧ Vocabulary.ofPackage c 0 = .ok vocabulary ∧
      c.UsageStays vocabulary ∧ 37 ∈ (c.node 38).attrs := by
  have h : succeedsWith (binds fun c vocabulary => stays 15 c vocabulary &&
      decide (37 ∈ (c.node 38).attrs.toList)) sample.read = true := by
    decide +kernel
  obtain ⟨x, hx, hcheck⟩ := succeedsWith_eq_true h
  obtain ⟨c, vocabulary, hc, hv, hcheck⟩ := binds_eq_true hcheck
  rw [Bool.and_eq_true] at hcheck
  exact ⟨x, c, vocabulary, hx, hc, hv, usageStays_of_stays hcheck.1,
    Array.mem_toList_iff.1 (of_decide_eq_true hcheck.2)⟩

end Session.Marked

theorem placeAttributes_correct_marked :
    (∃ x c, [("a", some ⟨"a"⟩, Text.Source.ofBytes Marked.bytes)].forM
        (fun file => Compile.readFile (Compile.package Marked.sample.sources 0) 0 file.1 file.2.1
          file.2.2) Sample.begun = .ok () x ∧ Link.bindReferences 0 x.1 = .ok () c ∧
      (∃ vocabulary, Vocabulary.ofPackage c 0 = .ok vocabulary ∧ c.UsageStays vocabulary) ∧
      37 ∈ (c.node 38).attrs ∧ c.PlacesExactly 0 0) ∧
    ∃ x c, Compile.readSources Marked.sample.sources (Compile.package Marked.sample.sources 0) 0
        (.files [⟨"a"⟩]) Sample.begun = .ok () x ∧ Link.bindReferences 0 x.1 = .ok () c ∧
      37 ∈ (c.node 38).attrs ∧ c.PlacesExactly 0 0 := by
  obtain ⟨hany, hcompiler⟩ := placeAttributes_correct
  obtain ⟨x, c, vocabulary, hx, hc, hv, hstays, hnote⟩ := Marked.read_ok
  have hfile := Marked.sample.readFile_eq.trans hx
  have hfiles : [("a", some ⟨"a"⟩, Text.Source.ofBytes Marked.bytes)].forM
      (fun file => Compile.readFile (Compile.package Marked.sample.sources 0) 0 file.1 file.2.1
        file.2.2) Sample.begun = .ok () x := forM_cons_ok [] hfile
  have hu : ∀ v, Vocabulary.ofPackage c 0 = .ok v → c.UsageStays v := fun v hv' => by
    cases hv.symm.trans hv'
    exact hstays
  refine ⟨⟨x, c, hfiles, hc, ⟨vocabulary, hv, hstays⟩, hnote, ?_⟩, x, c, ?_, hc, hnote, ?_⟩
  · have hhonest := honest_package Marked.sample.sources 0
    exact hany Catalogue (Compile.package Marked.sample.sources 0) empty.1
      (hhonest.hosting sound_empty Prelude.packageName) Prelude.packageName
      Sample.begun.2 [("a", some ⟨"a"⟩, Text.Source.ofBytes Marked.bytes)] x.1 x.2 c 0
      sound_empty.anchored (hhonest.rests_opened sound_empty rfl).1 hfiles hc hu
  · exact forM_cons_ok [] (Marked.sample.readPath_eq.trans hx)
  · exact hcompiler empty x Marked.sample.sources 0 Prelude.packageName (.files [⟨"a"⟩]) c 0
      .refl rfl (forM_cons_ok [] (Marked.sample.readPath_eq.trans hx)) hc hu

end SchemaLang
