-- Runs into an output directory. Workers read files while the outputs of others are being written.
-- So what was there before the run is what is read only where no output lands on a file, and an
-- output is sure to stay only where no other file goes by the same names.
import LogSweep.Proofs.MadeDirectories

namespace LogSweep

namespace FileTree

/-! ## Stored results -/

/-- Whether a file stands at these names below an output directory. -/
def Stored (t : FileTree) (dir : Path) (names : List String) : Prop :=
  ∃ k c, t.locate dir = .ok (k, .directory) ∧
    t.locate (dir.join ⟨names⟩) = .ok (k ++ names, .file c)

theorem Grown.stored {t t' : FileTree} (h : Grown t t') {dir : Path} {names : List String}
    (hs : t.Stored dir names) : t'.Stored dir names := by
  obtain ⟨k, c, hdir, hfile⟩ := hs
  obtain ⟨c', hfile'⟩ := h.locate_file hfile
  exact ⟨k, c', h.locate_directory hdir, hfile'⟩

theorem Stored.place? {t : FileTree} {dir : Path} {names : List String} {k : Location}
    (hs : t.Stored dir names) (hdir : t.locate dir = .ok (k, .directory)) :
    t.place? (dir.join ⟨names⟩) = some (k ++ names) := by
  obtain ⟨k', c, hdir', hfile⟩ := hs
  obtain rfl : k = k' := by simpa [hdir] using hdir'
  exact place?_of_locate hfile

theorem Stored.place?_grown {t t' : FileTree} {dir : Path} {names : List String}
    (hs : t.Stored dir names) (h : Grown t t') :
    t'.place? (dir.join ⟨names⟩) = t.place? (dir.join ⟨names⟩) := by
  obtain ⟨k, c, hdir, hfile⟩ := hs
  obtain ⟨c', hfile'⟩ := h.locate_file hfile
  rw [place?_of_locate hfile, place?_of_locate hfile']

end FileTree

/-! ## Where outputs land -/

/-- Whether a file was swept and, in a run into an output directory, its output written. -/
def FileStatus.IsGood (s : FileStatus) : Prop := s = .stripped ∨ s = .unchanged

namespace Crew

open FileTree

section Landing

variable [Grammar] {t₀ last : FileTree} {dir : Path} {o : SweepOptions} {fs : List SourceFile}
  {c : Crew}

/-- A turn that goes well leaves all files as they are, or puts the output for its own file at the
names that this goes by and leaves the others. -/
theorem Filling.turn_lands (h : c.Filling t₀ dir o fs) (hwork : ∀ n ∈ t₀.workDir, isName n = true)
    (i : Nat) (hdone : ∀ (f : SourceFile) (r : FileReport),
      (c.turn o (.outDir dir) i).files[i]? = some (f, .done r) → r.status.IsGood) :
    (∀ l, (c.turn o (.outDir dir) i).tree.fileAt? l = c.tree.fileAt? l) ∨
      ∃ f r names k x, c.files[i]? ≠ some (f, .done r) ∧
        (c.turn o (.outDir dir) i).files[i]? = some (f, .done r) ∧ t₀.GoesBy f names ∧
        (c.turn o (.outDir dir) i).tree.locate dir = .ok (k, .directory) ∧
        (c.turn o (.outDir dir) i).tree.locate (dir.join ⟨names⟩) = .ok (k ++ names, .file x) ∧
        ∀ l, l ≠ k ++ names → (c.turn o (.outDir dir) i).tree.fileAt? l = c.tree.fileAt? l := by
  rcases c.turn_cases o (.outDir dir) i with hsame | ⟨f, _, hturn⟩ | ⟨f, next, hi, hturn⟩
  · exact Or.inl (fun l => by rw [hsame])
  · exact Or.inl (fun l => by rw [hturn])
  · right
    obtain ⟨names, hnames⟩ := h.goes f (List.mem_of_getElem? (h.getElem?_eq hi))
    obtain ⟨t', _, rfl⟩ := h.decided i f next hi
    rcases hperform : f.perform (.outDir dir) (c.faults i) c.tree
      (f.decide o (.outDir dir) (t'.readText f.path)) with ⟨after, r⟩
    rw [hperform] at hturn
    have hr : (c.turn o (.outDir dir) i).files[i]? = some (f, .done r) := by
      rw [hturn]
      exact List.getElem?_set_self (List.getElem?_eq_some_iff.mp hi).1
    obtain ⟨_, swept, _, _, _, k, hk, hfile, hframe⟩ :=
      perform_outDir h.tree.1 hwork hnames hperform (hdone f r hr)
    have htree : (c.turn o (.outDir dir) i).tree = after := by rw [hturn]
    rw [htree]
    exact ⟨f, r, names, k, _, by simp [hi], hr, hnames, hk, hfile, hframe⟩

/-- Over a part of a run in which all goes well, a file holds what it held unless the output for a
file that is done in that part lands on it. -/
theorem Filling.fileAt?_run (h : c.Filling t₀ dir o fs) (hwork : ∀ n ∈ t₀.workDir, isName n = true)
    (schedule : List Nat) (hlast : Grown (c.run o (.outDir dir) schedule).tree last)
    (hdone : ∀ (i : Nat) (f : SourceFile) (r : FileReport),
      (c.run o (.outDir dir) schedule).files[i]? = some (f, .done r) → r.status.IsGood)
    {l : Location}
    (hapart : ∀ (i : Nat) (f : SourceFile) (r : FileReport),
      (c.run o (.outDir dir) schedule).files[i]? = some (f, .done r) →
      c.files[i]? ≠ some (f, .done r) →
      ∀ names, t₀.GoesBy f names → last.Stored dir names →
        last.place? (dir.join ⟨names⟩) ≠ some l) :
    (c.run o (.outDir dir) schedule).tree.fileAt? l = c.tree.fileAt? l := by
  induction schedule generalizing c with
  | nil => rfl
  | cons i schedule ih =>
    have hrest := ih (h.turn i) hlast hdone (by
      intro j f r hj hnew
      refine hapart j f r hj (fun hold => hnew ?_)
      exact getElem?_run_of_done hold [i])
    refine hrest.trans ?_
    rcases h.turn_lands hwork i (fun f r hr => hdone i f r (getElem?_run_of_done hr schedule)) with
      hsame | ⟨f, r, names, k, x, hnew, hr, hnames, hk, hfile, hframe⟩
    · exact hsame l
    · apply hframe
      rintro rfl
      -- The output stays at its names to the end.
      have hgrown := ((h.turn i).changedIn_run schedule).grown.trans hlast
      have hstored : (c.turn o (.outDir dir) i).tree.Stored dir names := ⟨k, x, hk, hfile⟩
      refine hapart i f r (getElem?_run_of_done hr schedule) hnew names hnames
        (hgrown.stored hstored) ?_
      rw [hstored.place?_grown hgrown, hstored.place? hk]

end Landing

end Crew

namespace FileTree

/-- The workers after a front part of a run. -/
def crewAt [Grammar] (t : FileTree) (o : SweepOptions) (mode : WriteMode) (m : Machine)
    (fs : List SourceFile) (front : List Nat) : Crew :=
  (Crew.start t fs m.faults).run o mode front

/-- What the worker at one of the files reads when its first turn comes. -/
def readingOf [Grammar] (t : FileTree) (o : SweepOptions) (mode : WriteMode) (m : Machine)
    (fs : List SourceFile) (i : Nat) (f : SourceFile) : Except FileError String :=
  (t.crewAt o mode m fs ((m.turns ++ Crew.inOrder fs.length).takeWhile (· ≠ i))).tree.readText f.path

theorem takeWhile_ne_append {i : Nat} {before : List Nat} (h : i ∉ before) (later : List Nat) :
    (before ++ i :: later).takeWhile (· ≠ i) = before := by
  have hall : ∀ j ∈ before, decide (j ≠ i) = true := by
    intro j hj
    simpa using fun hji : j = i => h (hji ▸ hj)
  rw [List.takeWhile_append_of_pos hall]
  simp

/-- A run into an output directory in which all goes well. -/
structure GoodRun [Grammar] (t₀ made : FileTree) (dir : Path) (o : SweepOptions) (m : Machine)
    (fs : List SourceFile) : Prop where
  grown : Grown t₀ made
  wellFormed : made.WellFormed
  named : ∀ n ∈ t₀.workDir, isName n = true
  goes : ∀ f ∈ fs, ∃ names, t₀.GoesBy f names
  good : ∀ r ∈ (made.sweepTogether o (.outDir dir) m fs).2, r.status.IsGood

/-- The output for one of the files is at its destination after a front part of a run. -/
structure Landed [Grammar] (t₀ made : FileTree) (dir : Path) (o : SweepOptions) (m : Machine)
    (fs : List SourceFile) (front : List Nat) (i : Nat) (f : SourceFile) (swept : Outcome) :
    Prop where
  done : ∃ r, (made.crewAt o (.outDir dir) m fs front).files[i]? = some (f, .done r)
  stands : ∃ k names, t₀.GoesBy f names ∧
    (made.crewAt o (.outDir dir) m fs front).tree.locate dir = .ok (k, .directory) ∧
    (made.crewAt o (.outDir dir) m fs front).tree.locate (dir.join ⟨names⟩) =
      .ok (k ++ names, .file swept.output.toUTF8)

section Runs

variable [Grammar] {t₀ made : FileTree} {dir : Path} {o : SweepOptions} {m : Machine}
  {fs : List SourceFile} {front back : List Nat} {i : Nat} {f : SourceFile}

theorem GoodRun.filling (h : GoodRun t₀ made dir o m fs) (front : List Nat) :
    (made.crewAt o (.outDir dir) m fs front).Filling t₀ dir o fs :=
  (Crew.filling_start h.grown h.wellFormed h.goes m.faults).run front

/-- The rest of a run. -/
theorem run_crewAt (hsplit : m.turns ++ Crew.inOrder fs.length = front ++ back) :
    (made.crewAt o (.outDir dir) m fs front).run o (.outDir dir) back =
      made.crewAfter o (.outDir dir) m fs := by
  rw [crewAt, crewAfter, hsplit, Crew.run_append]

theorem GoodRun.grows (h : GoodRun t₀ made dir o m fs)
    (hsplit : m.turns ++ Crew.inOrder fs.length = front ++ back) :
    Grown (made.crewAt o (.outDir dir) m fs front).tree
      (made.crewAfter o (.outDir dir) m fs).tree := by
  rw [← run_crewAt hsplit]
  exact ((h.filling front).changedIn_run back).grown

theorem GoodRun.isGood (h : GoodRun t₀ made dir o m fs)
    (hsplit : m.turns ++ Crew.inOrder fs.length = front ++ back) {r : FileReport}
    (hi : (made.crewAt o (.outDir dir) m fs front).files[i]? = some (f, .done r)) :
    r.status.IsGood := by
  have hlast : (made.crewAfter o (.outDir dir) m fs).files[i]? = some (f, .done r) := by
    rw [← run_crewAt hsplit]
    exact Crew.getElem?_run_of_done hi back
  exact h.good r (List.mem_of_getElem? (getElem?_sweepTogether_iff.mpr
    ⟨f, getElem?_of_crewAfter hlast, hlast⟩))

/-- What an output that is still to come does not land on is what was there before the run. -/
theorem GoodRun.fileAt?_before (h : GoodRun t₀ made dir o m fs)
    (hsplit : m.turns ++ Crew.inOrder fs.length = front ++ back) (hi : i ∉ front)
    (hf : fs[i]? = some f) {l : Location}
    (hl : ∀ (j : Nat) (g : SourceFile), fs[j]? = some g → j ≠ i →
      (made.crewAfter o (.outDir dir) m fs).tree.place? (t₀.destination dir g) ≠ some l) :
    (made.crewAt o (.outDir dir) m fs front).tree.fileAt? l = made.fileAt? l := by
  have hstart : (Crew.start made fs m.faults).Filling t₀ dir o fs := h.filling []
  refine hstart.fileAt?_run h.named front (h.grows hsplit) (fun j g r hj => h.isGood hsplit hj) ?_
  intro j g r hj _ names hnames _
  rw [← hnames.destination_eq]
  apply hl j g ((h.filling front).getElem?_eq hj)
  rintro rfl
  -- The worker at the file itself has not had a turn yet.
  have hwaiting : (Crew.start made fs m.faults).files[j]? = some (f, .waiting) :=
    Crew.getElem?_start.mpr ⟨hf, rfl⟩
  rw [Crew.getElem?_run_of_not_mem hi, hwaiting] at hj
  simp at hj

/-- Each file is read when its first turn comes and swept, and the output lands. What was read is
what was there before the run, unless the output for another file lands there. -/
theorem GoodRun.exists_landed (h : GoodRun t₀ made dir o m fs) (hf : fs[i]? = some f) :
    ∃ source swept front back, m.turns ++ Crew.inOrder fs.length = front ++ back ∧
      made.readingOf o (.outDir dir) m fs i f = .ok source ∧ sweep source o = .ok swept ∧
      Landed t₀ made dir o m fs front i f swept := by
  obtain ⟨names, hnames⟩ := h.goes f (List.mem_of_getElem? hf)
  have hwaiting : (Crew.start made fs m.faults).files[i]? = some (f, .waiting) :=
    Crew.getElem?_start.mpr ⟨hf, rfl⟩
  obtain ⟨before, between, later, after, r, hsplit, hbefore, hperform, htree, hfront, _⟩ :=
    Crew.exists_turns_of_count o (.outDir dir) hwaiting
      (two_le_count_turns m (List.getElem?_eq_some_iff.mp hf).1)
  have hsplit' : m.turns ++ Crew.inOrder fs.length =
      (before ++ i :: (between ++ [i])) ++ later := by simp [hsplit]
  obtain ⟨source, swept, hread, hsweep, _, k, hk, hfile, _⟩ :=
    perform_outDir (h.filling (before ++ i :: between)).tree.1 h.named hnames hperform
      (h.isGood hsplit' hfront)
  refine ⟨source, swept, before ++ i :: (between ++ [i]), later, hsplit', ?_, hsweep,
    ⟨r, hfront⟩, k, names, hnames, htree ▸ hk, htree ▸ hfile⟩
  rw [readingOf, hsplit, takeWhile_ne_append hbefore]
  exact hread

theorem GoodRun.readText_eq (h : GoodRun t₀ made dir o m fs) (hf : fs[i]? = some f) {l : Location}
    {c : ByteArray} (hl : made.locate f.path = .ok (l, .file c))
    (hapart : ∀ (j : Nat) (g : SourceFile), fs[j]? = some g → j ≠ i →
      (made.crewAfter o (.outDir dir) m fs).tree.place? (t₀.destination dir g) ≠ some l) :
    made.readingOf o (.outDir dir) m fs i f = made.readText f.path := by
  have hmem : i ∈ m.turns ++ Crew.inOrder fs.length := by
    apply List.count_pos_iff.mp
    have := two_le_count_turns m (List.getElem?_eq_some_iff.mp hf).1
    omega
  obtain ⟨before, later, hsplit, hbefore⟩ := List.eq_append_cons_of_mem hmem
  have hstart : (made.crewAt o (.outDir dir) m fs []).Filling t₀ dir o fs := h.filling []
  rw [readingOf, hsplit, takeWhile_ne_append hbefore]
  exact (hstart.changedIn_run before).grown.readText hl (h.fileAt?_before hsplit hbefore hf hapart)

/-- An output stays when none of the files that are done later goes to its destination. -/
theorem Landed.readText_eq {swept : Outcome} (hlanded : Landed t₀ made dir o m fs front i f swept)
    (h : GoodRun t₀ made dir o m fs) (hsplit : m.turns ++ Crew.inOrder fs.length = front ++ back)
    (hlast : ∀ (j : Nat) (g : SourceFile), fs[j]? = some g →
      t₀.destination dir g = t₀.destination dir f →
      ∃ r, (made.crewAt o (.outDir dir) m fs front).files[j]? = some (g, .done r)) :
    (made.crewAfter o (.outDir dir) m fs).tree.readText (t₀.destination dir f) =
      .ok swept.output := by
  obtain ⟨k, names, hnames, hk, hfile⟩ := hlanded.stands
  have hgrows := h.grows hsplit
  have hkept : (made.crewAfter o (.outDir dir) m fs).tree.fileAt? (k ++ names) =
      (made.crewAt o (.outDir dir) m fs front).tree.fileAt? (k ++ names) := by
    rw [← run_crewAt hsplit] at hgrows ⊢
    refine (h.filling front).fileAt?_run h.named back (Grown.refl _) ?_ ?_
    · intro j g r hj
      rw [run_crewAt hsplit] at hj
      exact h.isGood (List.append_nil _).symm hj
    · intro j g r hj hnew names' hnames' hstored hplace
      rw [hstored.place? (hgrows.locate_directory hk), Option.some.injEq,
        List.append_cancel_left_eq] at hplace
      obtain ⟨r', hr'⟩ := hlast j g (((h.filling front).run back).getElem?_eq hj)
        (by rw [hnames'.destination_eq, hnames.destination_eq, hplace])
      rw [Crew.getElem?_run_of_done hr'] at hj
      exact hnew (hr'.trans hj)
  rw [hnames.destination_eq]
  exact (hgrows.readText hfile hkept).trans (readText_of_locate_text hfile)

/-- What is done later than something else is done nearer the end of a run. -/
theorem length_lt_of_done {front' back' : List Nat}
    (hsplit : m.turns ++ Crew.inOrder fs.length = front ++ back)
    (hsplit' : m.turns ++ Crew.inOrder fs.length = front' ++ back') {r : FileReport}
    (hr : (made.crewAt o (.outDir dir) m fs front').files[i]? = some (f, .done r))
    (hnew : (made.crewAt o (.outDir dir) m fs front).files[i]? ≠ some (f, .done r)) :
    back'.length < back.length := by
  rcases List.append_eq_append_iff.mp (hsplit.symm.trans hsplit') with
    ⟨more, rfl, rfl⟩ | ⟨more, rfl, rfl⟩
  · have hmore : more ≠ [] := by
      rintro rfl
      rw [List.append_nil] at hr
      exact hnew hr
    rw [List.length_append]
    have := List.length_pos_iff.mpr hmore
    omega
  · refine absurd ?_ hnew
    rw [crewAt, Crew.run_append]
    exact Crew.getElem?_run_of_done hr more

/-- When an output has landed at a destination, what stands there after the run is the output for
one of the files that go there: for the one that was written last. -/
theorem GoodRun.exists_output_of_landed (h : GoodRun t₀ made dir o m fs) {front back : List Nat}
    {i : Nat} {f : SourceFile} {source : String} {swept : Outcome} (hf : fs[i]? = some f)
    (hsplit : m.turns ++ Crew.inOrder fs.length = front ++ back)
    (hread : made.readingOf o (.outDir dir) m fs i f = .ok source)
    (hsweep : sweep source o = .ok swept) (hlanded : Landed t₀ made dir o m fs front i f swept) :
    ∃ (j : Nat) (g : SourceFile) (source' : String) (swept' : Outcome), fs[j]? = some g ∧
      t₀.destination dir g = t₀.destination dir f ∧
      made.readingOf o (.outDir dir) m fs j g = .ok source' ∧ sweep source' o = .ok swept' ∧
      (made.crewAfter o (.outDir dir) m fs).tree.readText (t₀.destination dir f) =
        .ok swept'.output := by
  by_cases hlast : ∀ (j : Nat) (g : SourceFile), fs[j]? = some g →
      t₀.destination dir g = t₀.destination dir f →
      ∃ r, (made.crewAt o (.outDir dir) m fs front).files[j]? = some (g, .done r)
  · exact ⟨i, f, source, swept, hf, rfl, hread, hsweep, hlanded.readText_eq h hsplit hlast⟩
  · -- One of the others is written later, so less of the run is left behind it.
    obtain ⟨j, g, hg, hsame, hnew⟩ : ∃ (j : Nat) (g : SourceFile), fs[j]? = some g ∧
        t₀.destination dir g = t₀.destination dir f ∧
        ∀ r, (made.crewAt o (.outDir dir) m fs front).files[j]? ≠ some (g, .done r) := by
      simpa only [not_forall, not_exists, exists_prop] using hlast
    obtain ⟨source', swept', front', back', hsplit', hread', hsweep', hlanded'⟩ :=
      h.exists_landed hg
    obtain ⟨r, hr⟩ := hlanded'.done
    have hless : back'.length < back.length := length_lt_of_done hsplit hsplit' hr (hnew r)
    obtain ⟨j', g', source'', swept'', hg', hsame', hread'', hsweep'', hout⟩ :=
      h.exists_output_of_landed hg hsplit' hread' hsweep' hlanded'
    exact ⟨j', g', source'', swept'', hg', hsame'.trans hsame, hread'', hsweep'', hsame ▸ hout⟩
termination_by back.length

theorem GoodRun.exists_output (h : GoodRun t₀ made dir o m fs) (hf : fs[i]? = some f) :
    ∃ (j : Nat) (g : SourceFile) (source : String) (swept : Outcome), fs[j]? = some g ∧
      t₀.destination dir g = t₀.destination dir f ∧
      made.readingOf o (.outDir dir) m fs j g = .ok source ∧ sweep source o = .ok swept ∧
      (made.sweepTogether o (.outDir dir) m fs).1.readText (t₀.destination dir f) =
        .ok swept.output := by
  obtain ⟨source, swept, front, back, hsplit, hread, hsweep, hlanded⟩ := h.exists_landed hf
  exact h.exists_output_of_landed hf hsplit hread hsweep hlanded

end Runs

end FileTree

/-! ## The law -/

/-- On any machine, where every report is good, each file was read when its first turn came and
swept. What was read is what the file held before the run, unless the output for another file
landed there; and the output is at the destination after the run, unless another file has the same
destination. What stands there in any case is the output for one of the files that have it. A command
line with an output directory is such a run. -/
theorem an_output_directory_holds_a_result_at_each_destination [Grammar] (t : FileTree)
    (hw : t.WellFormed) (d : Discovery) (roots : List Path) (o : SweepOptions) (dir : Path)
    (m : Machine) (made after : FileTree) (reports : List FileReport)
    (hmade : t.prepareOutput (.outDir dir) = (made, .ok ()))
    (hrun : made.sweepTogether o (.outDir dir) m (t.sourceFiles d roots) = (after, reports))
    (hdone : ∀ r ∈ reports, r.status = .stripped ∨ r.status = .unchanged) :
    (∀ (i : Nat) (f : SourceFile), (t.sourceFiles d roots)[i]? = some f →
      ∃ source swept,
        made.readingOf o (.outDir dir) m (t.sourceFiles d roots) i f = .ok source ∧
        sweep source o = .ok swept ∧
        ((∀ (j : Nat) (g : SourceFile), (t.sourceFiles d roots)[j]? = some g → j ≠ i →
            after.place? (t.destination dir g) ≠ t.place? f.path) →
          t.readText f.path = .ok source) ∧
        ((∀ (j : Nat) (g : SourceFile), (t.sourceFiles d roots)[j]? = some g → j ≠ i →
            t.destination dir g ≠ t.destination dir f) →
          after.readText (t.destination dir f) = .ok swept.output)) ∧
    (∀ f ∈ t.sourceFiles d roots, ∃ (i : Nat) (g : SourceFile) (source : String) (swept : Outcome),
      (t.sourceFiles d roots)[i]? = some g ∧ t.destination dir g = t.destination dir f ∧
      made.readingOf o (.outDir dir) m (t.sourceFiles d roots) i g = .ok source ∧
      sweep source o = .ok swept ∧
      after.readText (t.destination dir f) = .ok swept.output) ∧
    (∀ a : Arguments, WriteMode.ofArgs a.strip = .outDir dir →
      FileTree.sweepOptions (t.workspace a.discovery a.output).loaded.settings a = .ok o →
      (t.workspace a.discovery a.output).discovery = d →
      (t.workspace a.discovery a.output).roots = roots → t.sourceFiles d roots ≠ [] →
      (t.runSweep a m).tree = after) := by
  obtain ⟨rfl, rfl⟩ := Prod.mk.inj hrun
  have hprepared := t.madeAt_makeDirectories dir
  rw [show t.makeDirectories dir = (made, .ok ()) from hmade] at hprepared
  have hgood : FileTree.GoodRun t made dir o m (t.sourceFiles d roots) :=
    ⟨hprepared.toGrown, hprepared.wellFormed hw, fun n hn => hw.isName_of_find? hw.working hn,
      fun f hf => hw.exists_goesBy hf, hdone⟩
  refine ⟨?_, ?_, ?_⟩
  · intro i f hf
    obtain ⟨source, swept, _, _, _, hread, hsweep, _⟩ := hgood.exists_landed hf
    refine ⟨source, swept, hread, hsweep, fun hapart => ?_, fun hapart => ?_⟩
    · obtain ⟨l, c, hl⟩ := (hw.leadsToFile (List.mem_of_getElem? hf)).1
      rw [FileTree.place?_of_locate hl] at hapart
      rw [← hread, hgood.readText_eq hf (hprepared.locate_file hl) hapart]
      exact (hprepared.toGrown.readText hl (hprepared.fileAt? l)).symm
    · obtain ⟨j, g, source', swept', hg, hsame, hread', hsweep', hafter⟩ :=
        hgood.exists_output hf
      obtain rfl : j = i := by
        by_contra hne
        exact hapart j g hg hne hsame
      obtain rfl : f = g := by simpa [hf] using hg
      obtain rfl : source = source' := by simpa [hread] using hread'
      obtain rfl : swept = swept' := by simpa [hsweep] using hsweep'
      exact hafter
  · intro f hf
    obtain ⟨i, hi⟩ := List.mem_iff_getElem?.mp hf
    exact hgood.exists_output hi
  · rintro a hmode ho rfl rfl hfiles
    rw [FileTree.tree_runSweep m hmode (by simp) ho rfl hmade, if_neg (by simpa using hfiles)]
    rfl

/-- Two files with a log, one of them in a directory. -/
def twoSources : FileTree :=
  ⟨[], [(["src"], .directory), (["src", "a.js"], .file "console.log(1)".toUTF8),
    (["b.js"], .file "console.log(2)".toUTF8)]⟩

/-- A directory and a file that are swept into another directory by two workers, who both read
before they write. -/
theorem two_sources_are_swept_into_another_directory :
    ∃ made after reports, twoSources.prepareOutput (.outDir ⟨["out"]⟩) = (made, .ok ()) ∧
      made.sweepTogether ⟨.standard, none, false⟩ (.outDir ⟨["out"]⟩) ⟨2, [1, 0], fun _ => none⟩
        (twoSources.sourceFiles ⟨[], [], ["js"]⟩ [⟨["src"]⟩, ⟨["b.js"]⟩]) = (after, reports) ∧
      (∀ r ∈ reports, r.status = .stripped ∨ r.status = .unchanged) ∧
      after.readText ⟨["out", "b.js"]⟩ = .ok "null /* console.log(2) */" := by
  have hmade : twoSources.prepareOutput (.outDir ⟨["out"]⟩) =
      ((twoSources.prepareOutput (.outDir ⟨["out"]⟩)).1, .ok ()) :=
    Prod.ext rfl (by decide +kernel)
  have hfiles : twoSources.sourceFiles ⟨[], [], ["js"]⟩ [⟨["src"]⟩, ⟨["b.js"]⟩] =
      [⟨⟨["src", "a.js"]⟩, ⟨["src"]⟩⟩, ⟨⟨["b.js"]⟩, ⟨["b.js"]⟩⟩] := by decide +kernel
  have hdone : ∀ r ∈ ((twoSources.prepareOutput (.outDir ⟨["out"]⟩)).1.sweepTogether
      ⟨.standard, none, false⟩ (.outDir ⟨["out"]⟩) ⟨2, [1, 0], fun _ => none⟩
      (twoSources.sourceFiles ⟨[], [], ["js"]⟩ [⟨["src"]⟩, ⟨["b.js"]⟩])).2,
      r.status = .stripped ∨ r.status = .unchanged := by decide +kernel
  obtain ⟨hlaw, _⟩ := an_output_directory_holds_a_result_at_each_destination twoSources
    (by decide +kernel) ⟨[], [], ["js"]⟩ [⟨["src"]⟩, ⟨["b.js"]⟩] ⟨.standard, none, false⟩ ⟨["out"]⟩
    ⟨2, [1, 0], fun _ => none⟩ _ _ _ hmade (Prod.eta _).symm hdone
  obtain ⟨source, swept, _, hsweep, hread, hstays⟩ :=
    hlaw 1 ⟨⟨["b.js"]⟩, ⟨["b.js"]⟩⟩ (by rw [hfiles]; rfl)
  have hother : ∀ (j : Nat) (g : SourceFile),
      (twoSources.sourceFiles ⟨[], [], ["js"]⟩ [⟨["src"]⟩, ⟨["b.js"]⟩])[j]? = some g → j ≠ 1 →
        g = ⟨⟨["src", "a.js"]⟩, ⟨["src"]⟩⟩ := by
    rw [hfiles]
    rintro (_ | _ | j) g hg hj
    · exact (Option.some.inj hg).symm
    · exact absurd rfl hj
    · simp at hg
  have hsource : twoSources.readText ⟨["b.js"]⟩ = .ok "console.log(2)" := by decide +kernel
  rw [hread (fun j g hg hj => by rw [hother j g hg hj]; decide +kernel), Except.ok.injEq] at hsource
  obtain ⟨swept', hsweep', houtput⟩ : ∃ swept', sweep "console.log(2)" ⟨.standard, none, false⟩ =
      .ok swept' ∧ swept'.output = "null /* console.log(2) */" := by decide +kernel
  rw [hsource, hsweep', Except.ok.injEq] at hsweep
  have hplace : twoSources.destination ⟨["out"]⟩ ⟨⟨["b.js"]⟩, ⟨["b.js"]⟩⟩ = ⟨["out", "b.js"]⟩ := by
    decide +kernel
  have hafter := hstays (fun j g hg hj => by rw [hother j g hg hj]; decide +kernel)
  rw [hplace, ← hsweep, houtput] at hafter
  exact ⟨_, _, _, hmade, (Prod.eta _).symm, hdone, hafter⟩

/-- An output directory that is among what is swept, with a file in it. -/
def sweptOutput : FileTree :=
  ⟨[], [(["a.js"], .file "console.log(1)".toUTF8), (["lib"], .directory),
    (["lib", "out"], .directory), (["lib", "out", "a.js"], .file "console.log(2)".toUTF8)]⟩

/-- An output may land on a file that is still to be read. What the file held is lost, and what is
written for it is the output for the other file. -/
theorem an_output_may_land_on_a_source :
    ¬ ∀ (t : FileTree) (d : Discovery) (roots : List Path) (o : SweepOptions) (dir : Path)
        (m : Machine) (made after : FileTree) (reports : List FileReport), t.WellFormed →
      t.prepareOutput (.outDir dir) = (made, .ok ()) →
      made.sweepTogether o (.outDir dir) m (t.sourceFiles d roots) = (after, reports) →
      (∀ r ∈ reports, r.status = .stripped ∨ r.status = .unchanged) →
      ∀ f ∈ t.sourceFiles d roots, ∀ source swept, t.readText f.path = .ok source →
        sweep source o = .ok swept → after.readText (t.destination dir f) = .ok swept.output := by
  intro hclaim
  have hmade : sweptOutput.prepareOutput (.outDir ⟨["lib", "out"]⟩) =
      ((sweptOutput.prepareOutput (.outDir ⟨["lib", "out"]⟩)).1, .ok ()) :=
    Prod.ext rfl (by decide +kernel)
  obtain ⟨swept, hsweep, houtput⟩ : ∃ swept, sweep "console.log(2)" ⟨.standard, none, false⟩ =
      .ok swept ∧ swept.output = "null /* console.log(2) */" := by decide +kernel
  have hkept := hclaim sweptOutput ⟨[], [], ["js"]⟩ [⟨["a.js"]⟩, ⟨["lib"]⟩]
    ⟨.standard, none, false⟩ ⟨["lib", "out"]⟩ {} _ _ _ (by decide +kernel) hmade (Prod.eta _).symm
    (by decide +kernel) ⟨⟨["lib", "out", "a.js"]⟩, ⟨["lib"]⟩⟩ (by decide +kernel)
    "console.log(2)" swept (by decide +kernel) hsweep
  rw [houtput] at hkept
  exact absurd hkept (by decide +kernel)

end LogSweep
