-- What happens to one file when its turn comes. In place, what it holds is settled where it stands.
-- Below an output directory, the output is put at the names that the file goes by, and no other
-- file is touched.
import LogSweep.Proofs.FoundFiles
import LogSweep.Proofs.SweepShape

namespace LogSweep

/-! ## What is decided about a file -/

namespace SourceFile

theorem decide_of_unread [Grammar] (f : SourceFile) (o : SweepOptions) (mode : WriteMode)
    (e : FileError) :
    f.decide o mode (.error e) = .report (f.report 0 (.readFailed e)) := rfl

theorem decide_of_unswept [Grammar] (f : SourceFile) {o : SweepOptions} (mode : WriteMode)
    {source : String} {e : SweepError} (h : sweep source o = .error e) :
    f.decide o mode (.ok source) = .report (f.report 0 (.parseFailed e)) := by
  unfold SourceFile.decide
  simp only [h]

theorem decide_inPlace [Grammar] (f : SourceFile) {o : SweepOptions} {source : String}
    {swept : Outcome} (h : sweep source o = .ok swept) :
    f.decide o .inPlace (.ok source) =
      if swept.changed then .write swept.output (f.report swept.replaced.length .stripped)
      else .report (f.report 0 .unchanged) := by
  unfold SourceFile.decide
  simp only [h]
  split <;> rfl

theorem decide_outDir [Grammar] (f : SourceFile) {o : SweepOptions} (directory : Path)
    {source : String} {swept : Outcome} (h : sweep source o = .ok swept) :
    f.decide o (.outDir directory) (.ok source) =
      .write swept.output
        (f.report swept.replaced.length (if swept.changed then .stripped else .unchanged)) := by
  unfold SourceFile.decide
  simp only [h]

theorem writeUnder_eq_ok_iff {fault : Option FileError} {t t' : FileTree} {p : Path}
    {text : String} :
    writeUnder fault t p text = .ok t' ↔ fault = none ∧ t.writeText p text = .ok t' := by
  cases fault <;> simp [writeUnder]

end SourceFile

/-! ## What a sweep makes of a file -/

/-- What one sweep makes of what a file holds. It leaves alone what is no text, and what cannot be
swept. -/
def SweepOptions.settle [Grammar] (o : SweepOptions) (content : ByteArray) : ByteArray :=
  match String.fromUTF8? content with
  | none => content
  | some source =>
    match sweep source o with
    | .ok swept => swept.output.toUTF8
    | .error _ => content

theorem SweepOptions.settle_of_swept [Grammar] {o : SweepOptions} {source : String}
    {swept : Outcome} (h : sweep source o = .ok swept) :
    o.settle source.toUTF8 = swept.output.toUTF8 := by
  rw [settle, FileTree.fromUTF8?_eq_some_iff.mpr rfl]
  simp only [h]

theorem SweepOptions.settle_of_not_swept [Grammar] {o : SweepOptions} {content : ByteArray}
    (h : ∀ source swept, String.fromUTF8? content = some source → sweep source o ≠ .ok swept) :
    o.settle content = content := by
  unfold settle
  split
  · rfl
  · rename_i source htext
    split
    · rename_i swept hsweep
      exact absurd hsweep (h source swept htext)
    · rfl

/-- A sweep that replaces nothing gives back its source. -/
theorem output_of_not_changed [Grammar] {source : String} {o : SweepOptions} {swept : Outcome}
    (h : sweep source o = .ok swept) (hsame : swept.changed = false) : swept.output = source := by
  obtain ⟨c, htext, hspans, hfill⟩ := exists_cut_of_sweepWith h
  have hnone : c.spans = [] := by simpa [Outcome.changed, hspans] using hsame
  rw [hfill, Cut.fill_eq_text hnone, htext]

namespace FileTree

/-! ## A file in place -/

/-- Whether a path leads to a file and ends in a name, as it must to be written to. -/
def LeadsToFile (t : FileTree) (p : Path) : Prop :=
  (∃ l c, t.locate p = .ok (l, .file c)) ∧
    ∃ init name, p.pieces = init ++ [name] ∧ isName name = true

theorem Grown.leadsToFile {t t' : FileTree} (h : Grown t t') {p : Path} (hp : t.LeadsToFile p) :
    t'.LeadsToFile p := by
  obtain ⟨⟨l, c, hl⟩, hend⟩ := hp
  obtain ⟨c', hl'⟩ := h.locate_file hl
  exact ⟨⟨l, c', hl'⟩, hend⟩

theorem WellFormed.leadsToFile {t : FileTree} (hw : t.WellFormed) {d : Discovery}
    {roots : List Path} {f : SourceFile} (hf : f ∈ t.sourceFiles d roots) :
    t.LeadsToFile f.path := by
  obtain ⟨l, c, hl⟩ := hw.locate_of_discover (mem_discover_of_mem_filesOf (mem_sourceFiles.mp hf).2)
  exact ⟨⟨l, c, hl⟩, hw.exists_name_of_locate hl⟩

/-- What is decided about a file in place settles what it holds: either that needs no write, or the
settled bytes are to be written. -/
theorem decide_settles [Grammar] {t : FileTree} {f : SourceFile} {l : Location} {c : ByteArray}
    (hl : t.locate f.path = .ok (l, .file c)) (o : SweepOptions) :
    (∃ r, f.decide o .inPlace (t.readText f.path) = .report r ∧ o.settle c = c ∧
        ∀ e, r.status ≠ .writeFailed e) ∨
      ∃ text r, f.decide o .inPlace (t.readText f.path) = .write text r ∧
        text.toUTF8 = o.settle c ∧ ∀ e, r.status ≠ .writeFailed e := by
  rw [readText_of_locate hl]
  rcases htext : String.fromUTF8? c with _ | source
  · exact Or.inl ⟨_, rfl, SweepOptions.settle_of_not_swept (by simp [htext]),
      by simp [SourceFile.report]⟩
  · obtain rfl := fromUTF8?_eq_some_iff.mp htext
    rcases hsweep : sweep source o with err | swept
    · refine Or.inl ⟨_, f.decide_of_unswept _ hsweep, SweepOptions.settle_of_not_swept ?_,
        by simp [SourceFile.report]⟩
      intro source' swept htext' hsweep'
      rw [htext, Option.some.injEq] at htext'
      simp [← htext', hsweep] at hsweep'
    · rw [SweepOptions.settle_of_swept hsweep]
      simp only [f.decide_inPlace hsweep]
      by_cases hchanged : swept.changed = true
      · rw [if_pos hchanged]
        exact Or.inr ⟨_, _, rfl, rfl, by simp [SourceFile.report]⟩
      · rw [if_neg hchanged, output_of_not_changed hsweep (by simpa using hchanged)]
        exact Or.inl ⟨_, rfl, rfl, by simp [SourceFile.report]⟩

/-- Sweeping a file in place settles what it holds, with a write or without one, and the write
does not fail. -/
theorem sweepFile_inPlace [Grammar] {t : FileTree} {f : SourceFile} {l : Location} {c : ByteArray}
    (hf : t.LeadsToFile f.path) (hl : t.locate f.path = .ok (l, .file c)) (o : SweepOptions) :
    (((t.sweepFile o .inPlace f).1 = t ∧ o.settle c = c) ∨
        (t.sweepFile o .inPlace f).1 = t.put l (.file (o.settle c))) ∧
      ∀ e, (t.sweepFile o .inPlace f).2.status ≠ .writeFailed e := by
  obtain ⟨_, init, name, hpieces, hname⟩ := hf
  rw [sweepFile]
  rcases decide_settles hl o with ⟨r, hdecide, hsettled, hr⟩ | ⟨text, r, hdecide, htext, hr⟩
  · rw [hdecide]
    exact ⟨Or.inl ⟨rfl, hsettled⟩, hr⟩
  · have hwrite := writeText_of_locate hpieces hname hl text
    have hperform : f.perform .inPlace none t (.write text r) =
        (t.put l (.file text.toUTF8), r) := by
      simp [SourceFile.perform, SourceFile.store, SourceFile.writeUnder, hwrite]
    rw [hdecide, hperform, htext]
    exact ⟨Or.inr rfl, hr⟩

theorem grown_sweepFile_inPlace [Grammar] {t : FileTree} {f : SourceFile}
    (hf : t.LeadsToFile f.path) (o : SweepOptions) : Grown t (t.sweepFile o .inPlace f).1 := by
  obtain ⟨l, c, hl⟩ := hf.1
  rcases (sweepFile_inPlace hf hl o).1 with ⟨hsame, _⟩ | hput
  · rw [hsame]
    exact Grown.refl t
  · rw [hput]
    exact grown_put_file (by simp [(locate_eq_ok_iff.mp hl).2.2]) _

/-- Only the file itself is settled. -/
theorem fileAt?_sweepFile_inPlace [Grammar] {t : FileTree} {f : SourceFile}
    (hf : t.LeadsToFile f.path) (o : SweepOptions) {k : Location} {c : ByteArray}
    (hk : t.fileAt? k = some c) :
    (t.sweepFile o .inPlace f).1.fileAt? k =
      some (if t.place? f.path = some k then o.settle c else c) := by
  obtain ⟨l, c', hl⟩ := hf.1
  have hfind := (locate_eq_ok_iff.mp hl).2.2
  simp only [place?_of_locate hl, Option.some.injEq]
  by_cases hlk : l = k
  · subst hlk
    obtain rfl : c' = c := by simpa [fileAt?, hfind] using hk
    have hne : l ≠ [] := by
      rintro rfl
      simp at hfind
    rw [if_pos rfl]
    rcases (sweepFile_inPlace hf hl o).1 with ⟨hsame, hsettled⟩ | hput
    · rw [hsame, hsettled, hk]
    · rw [hput, fileAt?_eq_some_iff, find?_put_self _ hne]
  · rw [if_neg hlk, ← hk]
    rcases (sweepFile_inPlace hf hl o).1 with ⟨hsame, _⟩ | hput
    · rw [hsame]
    · rw [hput]
      exact fileAt?_of_find? (find?_put_ne _ (Ne.symm hlk))

/-! ## A file below an output directory -/

theorem pathOf_join {k : Location} (hk : ∀ n ∈ k, isName n = true) {path : Path}
    (hpath : path.isAbsolute = false) :
    (pathOf k).join path = ⟨"" :: (k ++ path.pieces)⟩ := by
  unfold pathOf
  split
  · rename_i hroot
    simp [Path.join, hpath, hroot]
  · rename_i hne
    have hlast : ("" :: k).getLast? ≠ some "" := by
      intro heq
      rw [List.getLast?_cons_of_ne_nil hne] at heq
      exact (isName_iff.mp (hk _ (List.mem_of_getLast? heq))).1 rfl
    simp [Path.join, hpath, hne, hlast]

/-- The absolute path that a path is taken for below the directory at a place. -/
def absoluteIn (k : Location) (path : Path) : Path :=
  if path.isAbsolute then path else (pathOf k).join path

/-- Whether a path stays in the directory at a place: what is there of it lies inside, and the rest
does not go up. -/
def StaysIn (t : FileTree) (k : Location) (p : Path) : Prop :=
  ∃ l e, t.locate (t.nearest p) = .ok (l, e) ∧ (pathOf l).startsWith (pathOf k) = true ∧
    ∀ rest, p.below? (t.nearest p) = some rest → rest.goesUp = false

theorem containedPath_eq_ok_iff {t : FileTree} {path root destination : Path} {k : Location}
    {e : Entry} (hroot : t.locate root = .ok (k, e)) :
    t.containedPath path root = .ok destination ↔
      destination = absoluteIn k path ∧ t.StaysIn k (absoluteIn k path) := by
  have hbase : (t.canonical root).mapError (DestinationError.unresolvedRoot root) =
      .ok (pathOf k) := by
    simp [canonical, hroot, Except.map, Except.mapError]
  have habsolute : (if path.isAbsolute then path else (pathOf k).join path) = absoluteIn k path := rfl
  simp only [containedPath, hbase, habsolute, bind, Except.bind, StaysIn]
  rcases hnear : t.locate (t.nearest (absoluteIn k path)) with err | ⟨l, e'⟩
  · simp [canonical, hnear, Except.map, Except.mapError]
  · simp only [canonical, hnear, Except.map, Except.mapError]
    by_cases hstarts : (pathOf l).startsWith (pathOf k) = true
    · rcases hbelow : (absoluteIn k path).below? (t.nearest (absoluteIn k path)) with _ | rest
      · simpa [hstarts, pure, Except.pure] using ⟨Eq.symm, Eq.symm⟩
      · by_cases hup : rest.goesUp = true
        · simp [hstarts, hup, throw, throwThe, MonadExceptOf.throw]
        · simpa [hstarts, hup, pure, Except.pure] using ⟨Eq.symm, Eq.symm⟩
    · simp [hstarts, throw, throwThe, MonadExceptOf.throw]

/-- The destination of a relative path starts where the output directory stands. -/
theorem exists_locate_of_containedPath {t : FileTree} {path root destination : Path}
    (hpath : path.isAbsolute = false) (h : t.containedPath path root = .ok destination) :
    ∃ k e, t.locate root = .ok (k, e) ∧ destination = (pathOf k).join path := by
  rcases hroot : t.locate root with err | ⟨k, e⟩
  · simp [containedPath, canonical, hroot, Except.map, Except.mapError, bind, Except.bind] at h
  · obtain ⟨rfl, _⟩ := (containedPath_eq_ok_iff hroot).mp h
    exact ⟨k, e, rfl, by simp [absoluteIn, hpath]⟩

/-- What is written to an absolute path without dots stands at its names, below directories. -/
theorem exists_front_of_writeText {t t' : FileTree} {l : Location} {text : String} (hne : l ≠ [])
    (hl : ∀ n ∈ l, isName n = true) (h : t.writeText ⟨"" :: l⟩ text = .ok t') :
    t.find? l ≠ some .directory ∧ t' = t.put l (.file text.toUTF8) ∧
      t.follow [] l.dropLast = .ok l.dropLast ∧ t.find? l.dropLast = some .directory := by
  obtain ⟨init, name, m, hpieces, _, hplace, hfree, hput⟩ := writeText_eq_ok_iff.mp h
  obtain ⟨k, hfollow, hdir, rfl⟩ := placeIn_eq_ok_iff.mp hplace
  obtain ⟨front, last, rfl⟩ : ∃ front last, l = front ++ [last] :=
    ⟨l.dropLast, l.getLast hne, (List.dropLast_append_getLast hne).symm⟩
  have hcut : ("" :: front) ++ [last] = init ++ [name] := hpieces
  obtain ⟨rfl, hlast⟩ := List.append_inj' hcut rfl
  obtain rfl : last = name := by simpa using hlast
  have hstart : t.start ⟨"" :: (front ++ [last])⟩ = [] := by
    simp [start, isAbsolute_cons]
  rw [hstart, follow_idle (find?_nil t)] at hfollow
  obtain rfl : k = front := by
    simpa using eq_append_of_follow (fun n hn => hl n (List.mem_append_left _ hn)) hfollow
  rw [List.dropLast_concat]
  exact ⟨hfree, hput, hfollow, hdir⟩

theorem isName_of_locate {t : FileTree} {p : Path} {l : Location} {e : Entry}
    (hwork : ∀ n ∈ t.workDir, isName n = true) (h : t.locate p = .ok (l, e)) :
    ∀ n ∈ l, isName n = true := by
  refine isName_of_follow ?_ (locate_eq_ok_iff.mp h).2.1
  rw [start]
  split
  · simp
  · exact hwork

theorem furnished_above (t : FileTree) (p : Path) :
    Furnished t (p.parent?.elim (t, .ok ()) t.makeDirectories).1 := by
  rcases p.parent? with _ | q
  · exact Furnished.refl t
  · exact t.furnished_makeDirectories q

/-- What is written below the place of an output directory is found there by the path of the
directory, and no other file is touched. -/
theorem locate_of_writeText {t after : FileTree} {dir : Path} {k : Location} {e : Entry}
    {names : List String} {text : String} (hdir : t.locate dir = .ok (k, e))
    (hk : ∀ n ∈ k, isName n = true) (hne : names ≠ []) (hnames : ∀ n ∈ names, isName n = true)
    (h : t.writeText ⟨"" :: (k ++ names)⟩ text = .ok after) :
    Grown t after ∧ after.locate dir = .ok (k, .directory) ∧
      after.locate (dir.join ⟨names⟩) = .ok (k ++ names, .file text.toUTF8) ∧
      ∀ l, l ≠ k ++ names → after.fileAt? l = t.fileAt? l := by
  obtain ⟨hfree, rfl, hfollow, hfront⟩ := exists_front_of_writeText (by simp [hne])
    (fun n hn => (List.mem_append.mp hn).elim (hk n) (hnames n)) h
  have hgrown := grown_put_file hfree text.toUTF8
  obtain ⟨init, last, rfl⟩ : ∃ init last, names = init ++ [last] :=
    ⟨names.dropLast, names.getLast hne, (List.dropLast_append_getLast hne).symm⟩
  rw [← List.append_assoc, List.dropLast_concat] at hfollow hfront
  -- The way to the text passes the output directory, so that is a directory.
  obtain ⟨m, hm, hrest⟩ := follow_append_eq_ok hfollow
  obtain rfl : m = k := by simpa using eq_append_of_follow hk hm
  have hkdir : t.find? m = some .directory := by
    rcases init with _ | ⟨n, init⟩
    · simpa using hfront
    · exact find?_of_follow_cons hrest
  have hdirAfter := hgrown.locate hdir (hgrown.directory m hkdir)
  have hlast : (t.put (m ++ (init ++ [last])) (.file text.toUTF8)).follow m (init ++ [last]) =
      .ok (m ++ (init ++ [last])) := by
    rw [follow_append, hgrown.follow hrest, Except.bind,
      follow_name (hnames last (by simp)) (hgrown.directory _ hfront), follow, List.append_assoc]
  exact ⟨hgrown, hdirAfter, locate_join hdirAfter hne hnames hlast (find?_put_self _ (by simp)),
    fun l hl => fileAt?_of_find? (find?_put_ne _ hl)⟩

/-- A result that was stored below an output directory stands at the names that its file goes by,
and no other file was touched. -/
theorem store_outDir {t after : FileTree} {f : SourceFile} {dir : Path} {names : List String}
    {fault : Option FileError} {text : String} (hwork : ∀ n ∈ t.workDir, isName n = true)
    (hne : names ≠ []) (hnames : ∀ n ∈ names, isName n = true)
    (hrelative : t.relativeDestination f.path f.root = ⟨names⟩)
    (h : f.store (.outDir dir) fault t text = (after, .ok ())) :
    Grown t after ∧ ∃ k, after.locate dir = .ok (k, .directory) ∧
      after.locate (dir.join ⟨names⟩) = .ok (k ++ names, .file text.toUTF8) ∧
      ∀ l, l ≠ k ++ names → after.fileAt? l = t.fileAt? l := by
  simp only [SourceFile.store, hrelative] at h
  rcases hpath : t.containedPath ⟨names⟩ dir with err | destination
  · simp [hpath] at h
  obtain ⟨k, e, hdir, rfl⟩ := exists_locate_of_containedPath (Path.isAbsolute_names hnames) hpath
  have hk : ∀ n ∈ k, isName n = true := isName_of_locate hwork hdir
  simp only [hpath, pathOf_join hk (Path.isAbsolute_names hnames)] at h
  have hfurnished := t.furnished_above ⟨"" :: (k ++ names)⟩
  rcases hmade : (Path.mk ("" :: (k ++ names))).parent?.elim (t, .ok ()) t.makeDirectories with
    ⟨made, err | _⟩
  · simp [hmade] at h
  rw [hmade] at hfurnished
  rcases hwrite : SourceFile.writeUnder fault made ⟨"" :: (k ++ names)⟩ text with err | written
  · simp [hmade, hwrite] at h
  simp only [hmade, hwrite, Prod.mk.injEq, and_true] at h
  subst h
  obtain ⟨_, hwrite⟩ := SourceFile.writeUnder_eq_ok_iff.mp hwrite
  obtain ⟨e', hdir'⟩ := hfurnished.toGrown.exists_locate hdir
  obtain ⟨hgrown, hdirAfter, hfile, hframe⟩ := locate_of_writeText hdir' hk hne hnames hwrite
  refine ⟨hfurnished.toGrown.trans hgrown, k, hdirAfter, hfile, fun l hl => ?_⟩
  rw [hframe l hl, hfurnished.fileAt?]

/-- Carrying out what was decided about a file into an output directory, when that goes well: what
was read is swept, and the output is put at the names that the file goes by. -/
theorem perform_outDir [Grammar] {t₀ t after : FileTree} {f : SourceFile} {dir : Path}
    {names : List String} {o : SweepOptions} {fault : Option FileError}
    {content : Except FileError String} {r : FileReport} (hgrown : Grown t₀ t)
    (hwork : ∀ n ∈ t₀.workDir, isName n = true)
    (hgoes : t₀.GoesBy f names)
    (h : f.perform (.outDir dir) fault t (f.decide o (.outDir dir) content) = (after, r))
    (hdone : r.status = .stripped ∨ r.status = .unchanged) :
    ∃ source swept, content = .ok source ∧ sweep source o = .ok swept ∧
      Grown t after ∧ ∃ k, after.locate dir = .ok (k, .directory) ∧
        after.locate (dir.join ⟨names⟩) = .ok (k ++ names, .file swept.output.toUTF8) ∧
        ∀ l, l ≠ k ++ names → after.fileAt? l = t.fileAt? l := by
  rcases content with e | source
  · rw [SourceFile.decide_of_unread, SourceFile.perform, Prod.mk.injEq] at h
    simp [← h.2, SourceFile.report] at hdone
  rcases hsweep : sweep source o with e | swept
  · rw [SourceFile.decide_of_unswept f _ hsweep, SourceFile.perform, Prod.mk.injEq] at h
    simp [← h.2, SourceFile.report] at hdone
  rw [SourceFile.decide_outDir f dir hsweep, SourceFile.perform] at h
  rcases hstore : f.store (.outDir dir) fault t swept.output with ⟨stored, e | _⟩
  · simp only [hstore, Prod.mk.injEq] at h
    simp [← h.2] at hdone
  · simp only [hstore, Prod.mk.injEq] at h
    rw [h.1] at hstore
    refine ⟨source, swept, rfl, hsweep, store_outDir ?_ hgoes.ne_nil hgoes.named
      (hgoes.relative t hgrown) hstore⟩
    rw [hgrown.workDir]
    exact hwork

/-! ## One file after another -/

theorem sweepFiles_cons [Grammar] (t : FileTree) (o : SweepOptions) (mode : WriteMode)
    (f : SourceFile) (fs : List SourceFile) :
    t.sweepFiles o mode (f :: fs) =
      (((t.sweepFile o mode f).1.sweepFiles o mode fs).1,
        (t.sweepFile o mode f).2 :: ((t.sweepFile o mode f).1.sweepFiles o mode fs).2) := rfl

/-- The tree after the run of a command line: its files are swept together once the output directory
is there, and without files nothing happens. -/
theorem tree_runSweep [Grammar] {t made : FileTree} {a : Arguments} {o : SweepOptions}
    {mode : WriteMode} {files : List SourceFile} (m : Machine)
    (hmode : WriteMode.ofArgs a.strip = mode) (hprints : mode ≠ .stdout)
    (ho : sweepOptions (t.workspace a.discovery a.output).loaded.settings a = .ok o)
    (hfiles : t.sourceFiles (t.workspace a.discovery a.output).discovery
      (t.workspace a.discovery a.output).roots = files)
    (hmade : t.prepareOutput mode = (made, .ok ())) :
    (t.runSweep a m).tree =
      if files.isEmpty then t else (made.sweepTogether o mode m files).1 := by
  -- The number of workers shows only in the notes.
  have ho' : sweepOptions (t.workspace a.discovery a.output m.workers).loaded.settings a = .ok o :=
    ho
  have hfiles' : t.sourceFiles (t.workspace a.discovery a.output m.workers).discovery
      (t.workspace a.discovery a.output m.workers).roots = files := hfiles
  unfold runSweep
  simp only [ho', hmode, hprints, hfiles', hmade, decide_false, Bool.false_and, Bool.false_eq_true,
    if_false]
  split <;> rfl

end FileTree

end LogSweep
