import SchemaLang.Proofs.Grammar.Editing
import SchemaLang.Proofs.Link.Editing
import SchemaLang.Proofs.Session.Reachable

/-!
# Compiling edits the arena

A package that is compiled is read and linked by edits, and so are the packages that it imports. A package
that fails leaves no node, or its nodes stay as the edits have made them. So the arena of a session is made
from the empty one by edits (`Session.Reachable.edits`), and it is legible (`Session.Reachable.legible`).
-/

namespace SchemaLang

open Arena Session Text

variable {σ : Type} {importer : Importer σ} {p : NodeId}

/-! ## The scripts of a package -/

theorem edits_readFile {hosting : Hosting importer p} {x : Arena × σ} (he : hosting.Edits)
    (h : hosting.Rests x) (name : String) (path : Option Path) (source : Source) :
    Leads EditsArena (Compile.readFile importer p name path source) x fun _ _ => True := by
  rcases h.opens name path source with hrun | ⟨s, b, hb, hi, hg, hs, hrun⟩
  · exact .of_error hrun (refl x)
  · have hnew : EditsArena x (b, x.2) := hb ▸ edits_newScript x.1 p name path
    exact .follow hrun hnew (edits_readScript he source hi (hg.forest s hs))

section

variable {importer : Importer Catalogue} {hosting : Hosting importer p} {x : Session}

theorem edits_readPath (he : hosting.Edits) (provider : Provider) (h : hosting.Rests x) (path : Path) :
    Leads EditsArena (Compile.readPath provider importer p path) x fun _ _ => True := by
  unfold Compile.readPath
  cases provider.read path with
  | error fault => exact Leads.throw
  | ok bytes => exact edits_readFile he h ..

theorem edits_readSources (he : hosting.Edits) (provider : Provider) (h : hosting.Rests x)
    (sources : Sources) :
    Leads EditsArena (Compile.readSources provider importer p sources) x fun _ _ => True := by
  cases sources with
  | embedded => exact edits_readFile he h ..
  | files paths =>
    refine (Leads.forM (I := fun _ y => hosting.Rests y) (fun path _ y hy => ?_) paths x h).mono
      fun _ _ _ _ => trivial
    exact ((leads_readPath hosting provider hy path).both (edits_readPath he provider hy path)).mono
      fun _ _ _ h => h.1

end

/-! ## Packages -/

theorem edits_linkPackage (name : String) (package : NodeId) (x : Session) :
    Leads EditsArena (Compile.linkPackage name package) x fun _ _ => True := by
  have hlink := Link.edits_package package (if name == Prelude.packageName then some package
    else x.2.loaded[Prelude.packageName]?) x.1
  unfold Leads Compile.linkPackage at *
  dsimp only
  split at hlink
  · rename_i hrun
    rw [hrun]
    exact hlink
  · rename_i hrun
    rw [hrun]
    exact hlink

/-- The importer edits the arena. -/
def Editing (importer : Importer Catalogue) : Prop :=
  ∀ (name : String) (position : Position) (x : Session), Sound x →
    Leads EditsArena (importer name position) x fun _ _ => True

section

variable {importer : Importer Catalogue} {s : Session} {name : String}

/-- A package is called as it was asked for. -/
theorem Editing.hosting (he : Editing importer) (h : Honest importer) (hs : Sound s) (name : String) :
    (h.hosting hs name).Edits := by
  intro path position a catalogue hi hpath
  have hsound : Sound (a, catalogue) := Session.Compiles.sound hi
  have hnamed : Leads Follows (importer path position) (a, catalogue) fun q y => y.1.name q = path :=
    (h path position _ hsound).leads.mono fun q y hy hq => hy.sound.named path q hq
  refine (hnamed.both (he path position _ hsound)).mono ?_
  rintro q y - ⟨hq, -⟩
  rw [hq]
  exact hpath

theorem Editing.load (he : Editing importer) (h : Honest importer) (hs : Sound s)
    (hname : s.2.loaded[name]? = none) (provider : Provider) (sources : Sources) :
    Leads EditsArena (Compile.load provider importer name sources) s fun _ _ => True := by
  have hopened : EditsArena s (s.opened name) := edits_newPackage s.1 name
  have hsteps : Leads EditsArena (do
      Compile.readSources provider importer s.1.size sources
      Compile.linkPackage name s.1.size) (s.opened name) fun _ _ => True := by
    refine (edits_readSources (he.hosting h hs name) provider (h.rests_opened hs hname) sources).bind
      fun _ x _ _ => ?_
    exact edits_linkPackage name s.1.size x
  have hrun := load_eq provider importer name sources s
  split at hrun
  · rename_i x hx
    exact .of_ok hrun (trans_of EditsArena hopened (hsteps.ok hx).1) trivial
  · rename_i failure x hx
    have hedits : EditsArena (s.opened name) x := hsteps.error hx
    have hcompiles : s.Compiles name x :=
      ((h.leads_steps hs provider hname sources).error hx).inv (h.rests_opened hs hname).1
    split at hrun
    · rename_i hsize
      rw [hcompiles.leave.1 hsize] at hrun
      exact .of_error hrun (refl s)
    · exact .of_error hrun (trans_of EditsArena hopened hedits)

theorem editing_package (provider : Provider) : ∀ depth : Nat, Editing (Compile.package provider depth) := by
  intro depth
  induction depth with
  | zero =>
    intro name position x hx
    rcases package_cases provider 0 name position x with
      ⟨q, -, hrun⟩ | ⟨-, ⟨failure, hrun⟩ | ⟨_, _, hdepth, -⟩⟩
    · exact .of_ok hrun (refl x) trivial
    · exact .of_error hrun (refl x)
    · cases hdepth
  | succ depth ih =>
    intro name position x hx
    rcases package_cases provider (depth + 1) name position x with
      ⟨q, -, hrun⟩ | ⟨hname, ⟨failure, hrun⟩ | ⟨_, sources, hdepth, -, -, hrun⟩⟩
    · exact .of_ok hrun (refl x) trivial
    · exact .of_error hrun (refl x)
    · cases hdepth
      exact .follow hrun (refl x) (ih.load (honest_package provider depth) hx hname provider sources)

end

/-- The arena of a session is made by edits. -/
theorem Session.Reachable.edits {s : Session} (h : s.Reachable) : Arena.empty.Edits s.arena := by
  induction h with
  | refl => exact .refl _
  | tail ht hcall ih =>
    obtain ⟨provider, name, hcall⟩ := hcall
    have hlead := editing_package provider provider.depth name .unknown _ (Reachable.sound ht)
    rcases hcall with ⟨q, hq⟩ | ⟨failure, hf⟩
    · exact ih.trans (hlead.ok hq).1
    · exact ih.trans (hlead.error hf)

/-- Names stand on one line, and slots are numbered by their places. -/
theorem Session.Reachable.legible {s : Session} (h : s.Reachable) : Legible s.arena :=
  h.edits.legible legible_empty

end SchemaLang
