-- The layout of an output directory. A found file goes by the names that lead from its root to it,
-- and a path of names is let through below every output directory, whatever stands there. So the
-- files below one root keep their layout, and no two of them meet.
import LogSweep.Proofs.Containment

namespace LogSweep

/-! ## Destinations of names -/

theorem Path.components_names {names : List String} (h : ∀ n ∈ names, FileTree.isName n = true) :
    (Path.mk names).components = names.map .name := by
  rw [components, parts_names h, filterMap_named]

namespace FileTree

section Below

variable {t : FileTree} {k : Location} {names : List String}

theorem components_pathOf_join (hk : ∀ n ∈ k, isName n = true)
    (hnames : ∀ n ∈ names, isName n = true) (hne : names ≠ []) :
    ((pathOf k).join ⟨names⟩).components = .root :: (k ++ names).map .name := by
  rw [Path.components_join _ hne hnames, components_pathOf hk, List.map_append, List.cons_append]

/-- A path of names below a place stands for the names below it, also where nothing is yet. -/
theorem resolve_pathOf_join (hk : ∀ n ∈ k, isName n = true)
    (hnames : ∀ n ∈ names, isName n = true) (hne : names ≠ []) :
    t.resolve ((pathOf k).join ⟨names⟩) = k ++ names := by
  rw [resolve, components_pathOf_join hk hnames hne, resolveFrom, resolveFrom_names, List.nil_append]

/-- Names are let through below every output directory. -/
theorem WellFormed.containedPath_names (hw : t.WellFormed) {output : Path}
    (houtput : t.locate output = .ok (k, .directory)) (hnames : ∀ n ∈ names, isName n = true)
    (hne : names ≠ []) : t.containedPath ⟨names⟩ output = .ok ((pathOf k).join ⟨names⟩) := by
  have hdir := (locate_eq_ok_iff.mp houtput).2.2
  have hk : ∀ n ∈ k, isName n = true := fun n hn => hw.isName_of_find? hdir hn
  have habsolute : absoluteIn k ⟨names⟩ = (pathOf k).join ⟨names⟩ := by
    simp [absoluteIn, Path.isAbsolute_names hnames]
  refine (containedPath_eq_ok_iff houtput).mpr ⟨habsolute.symm, ?_⟩
  rw [habsolute]
  exact hw.staysIn_of_names hdir (components_pathOf_join hk hnames hne)

end Below

/-! ## Found files -/

theorem GoesBy.relative_self {t : FileTree} {f : SourceFile} {names : List String}
    (h : t.GoesBy f names) : t.relativeDestination f.path f.root = ⟨names⟩ :=
  h.relative t (Grown.refl t)

/-- A root leads to a file by its names, so two files with the same names are one. -/
theorem LaidOut.path_eq {t : FileTree} {f g : SourceFile} {names : List String}
    (hf : t.LaidOut f names) (hg : t.LaidOut g names) (hsame : g.root = f.root)
    (hroot : t.isDirectory f.root = true ∨ t.isFile f.root = true) : f.path = g.path := by
  rcases hroot with hdir | hfile
  · rw [hf.below hdir, hg.below (hsame ▸ hdir), hsame]
  · rw [(hf.alone hfile).1, (hg.alone (hsame ▸ hfile)).1, hsame]

/-- Only what is there leads to files. -/
theorem kind_of_mem_discover {t : FileTree} {d : Discovery} {root f : Path}
    (h : f ∈ t.discover d root) : t.isDirectory root = true ∨ t.isFile root = true := by
  rcases hroot : t.locate root with e | ⟨l, c | _⟩
  · simp [discover, hroot] at h
  · exact Or.inr (by simp [isFile, hroot])
  · exact Or.inl (by simp [isDirectory, hroot])

end FileTree

/-! ## The law -/

/-- Every file that a root leads to goes by names alone. From a root that is a directory they lead to
the file, and a root that is a file goes by its own name. Below an output directory, whatever stands
there, these names are let through, joined to its absolute path, and different files go to different
places. -/
theorem each_found_file_has_a_destination_of_its_own (t : FileTree) (hw : t.WellFormed)
    (d : Discovery) (root output : Path) (k : Location)
    (houtput : t.locate output = .ok (k, .directory)) :
    t.canonical output = .ok (FileTree.pathOf k) ∧
    (∀ f ∈ t.discover d root, ∃ names : List String,
      t.relativeDestination f root = ⟨names⟩ ∧ names ≠ [] ∧
      (Path.mk names).components = names.map .name ∧
      (t.isDirectory root = true → root.join (t.relativeDestination f root) = f) ∧
      (t.isFile root = true → f = root ∧ ∃ name, f.fileName? = some name ∧ names = [name]) ∧
      t.containedPath (t.relativeDestination f root) output =
        .ok ((FileTree.pathOf k).join (t.relativeDestination f root)) ∧
      t.resolve ((FileTree.pathOf k).join (t.relativeDestination f root)) = k ++ names) ∧
    ∀ f ∈ t.discover d root, ∀ g ∈ t.discover d root, f ≠ g →
      t.resolve ((FileTree.pathOf k).join (t.relativeDestination f root)) ≠
        t.resolve ((FileTree.pathOf k).join (t.relativeDestination g root)) := by
  have hk : ∀ n ∈ k, FileTree.isName n = true := fun n hn =>
    hw.isName_of_find? (FileTree.locate_eq_ok_iff.mp houtput).2.2 hn
  have hlaid : ∀ f ∈ t.discover d root, ∃ names, t.LaidOut ⟨f, root⟩ names :=
    fun f hf => hw.exists_laidOut (f := ⟨f, root⟩) hf
  refine ⟨by rw [FileTree.canonical, houtput]; rfl, fun f hf => ?_, fun f hf g hg hne heq => hne ?_⟩
  · obtain ⟨names, h⟩ := hlaid f hf
    have hrelative : t.relativeDestination f root = ⟨names⟩ := h.relative_self
    rw [hrelative]
    exact ⟨names, rfl, h.ne_nil, Path.components_names h.named, fun hdir => (h.below hdir).symm,
      h.alone, hw.containedPath_names houtput h.named h.ne_nil,
      FileTree.resolve_pathOf_join hk h.named h.ne_nil⟩
  · obtain ⟨names, h⟩ := hlaid f hf
    obtain ⟨names', h'⟩ := hlaid g hg
    have hrelative : t.relativeDestination f root = ⟨names⟩ := h.relative_self
    have hrelative' : t.relativeDestination g root = ⟨names'⟩ := h'.relative_self
    rw [hrelative, hrelative', FileTree.resolve_pathOf_join hk h.named h.ne_nil,
      FileTree.resolve_pathOf_join hk h'.named h'.ne_nil, List.append_cancel_left_eq] at heq
    subst heq
    exact h.path_eq h' rfl (FileTree.kind_of_mem_discover hf)

/-- A directory with an output directory in it, where a file stands on the way to a destination. -/
def libWithOutput : FileTree :=
  ⟨["home"], [(["home"], .directory), (["home", "lib"], .directory),
    (["home", "lib", "a.js"], .directory), (["home", "lib", "a.js", "b.js"], .file "f()".toUTF8),
    (["home", "lib", "out"], .directory), (["home", "lib", "out", "a.js"], .file "g()".toUTF8)]⟩

/-- The root is written with a way back and a slash at the end. -/
theorem a_destination_may_run_through_a_file :
    let root := Path.ofText "./lib/../lib/"
    let f := Path.ofText "./lib/../lib/a.js/b.js"
    let g := Path.ofText "./lib/../lib/out/a.js"
    libWithOutput.locate (.ofText "lib/out") = .ok (["home", "lib", "out"], .directory) ∧
      libWithOutput.containedPath (libWithOutput.relativeDestination f root) (.ofText "lib/out") =
        .ok (.ofText "/home/lib/out/a.js/b.js") ∧
      libWithOutput.resolve ((FileTree.pathOf ["home", "lib", "out"]).join
          (libWithOutput.relativeDestination f root)) ≠
        libWithOutput.resolve ((FileTree.pathOf ["home", "lib", "out"]).join
          (libWithOutput.relativeDestination g root)) := by
  intro root f g
  have hw : libWithOutput.WellFormed := by decide +kernel
  have hroot : libWithOutput.locate root = .ok (["home", "lib"], .directory) := by decide +kernel
  have houtput : libWithOutput.locate (.ofText "lib/out") =
      .ok (["home", "lib", "out"], .directory) := by decide +kernel
  have hfound : ∀ names ∈ [["a.js", "b.js"], ["out", "a.js"]],
      root.join ⟨names⟩ ∈ libWithOutput.discover ⟨[], [], ["js"]⟩ root := by
    intro names hnames
    rw [hw.discover_directory hroot]
    refine List.mem_map_of_mem ?_
    rw [FileTree.namesBelow, List.mem_mergeSort]
    revert names
    decide +kernel
  obtain ⟨_, hlaid, happart⟩ := each_found_file_has_a_destination_of_its_own libWithOutput hw
    ⟨[], [], ["js"]⟩ root (.ofText "lib/out") _ houtput
  obtain ⟨names, _, _, _, _, _, hcontained, _⟩ := hlaid f (hfound ["a.js", "b.js"] (by simp))
  refine ⟨houtput, ?_, happart f (hfound ["a.js", "b.js"] (by simp)) g
    (hfound ["out", "a.js"] (by simp)) (by decide +kernel)⟩
  rw [hcontained]
  decide +kernel

end LogSweep
