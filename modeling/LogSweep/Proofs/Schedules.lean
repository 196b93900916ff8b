-- Files that are swept side by side. A file is read in one step and written in another, and the
-- steps of different files may come in any order. Where no two paths lead to the same file, the
-- order does not show: not in the reports, not in the totals, and not in the tree.
import LogSweep.Proofs.Crews

namespace LogSweep

/-! ## What every schedule keeps -/

namespace FileTree

/-- What sweeping a file in the tree before the run decides about it. -/
def stepFor [Grammar] (t : FileTree) (o : SweepOptions) (mode : WriteMode) (f : SourceFile) :
    NextStep :=
  f.decide o mode (t.readText f.path)

theorem Apart.fileOf?_ne {t : FileTree} {fs : List SourceFile} (h : t.Apart fs) {i j : Nat}
    {f g : SourceFile} (hi : fs[i]? = some f) (hj : fs[j]? = some g) (hij : i ≠ j) {l : Location}
    (hl : t.fileOf? f.path = some l) : t.fileOf? g.path ≠ some l := by
  obtain ⟨hilt, rfl⟩ := List.getElem?_eq_some_iff.mp hi
  obtain ⟨hjlt, rfl⟩ := List.getElem?_eq_some_iff.mp hj
  have hpairs := List.pairwise_iff_getElem.mp h
  rcases Nat.lt_or_gt_of_ne hij with hlt | hlt
  · exact hpairs i j hilt hjlt hlt l hl
  · intro hg
    exact hpairs j i hjlt hilt hlt l hg hl

end FileTree

/-- Whether a stage is one that a file goes through when nothing else is swept. -/
def Stage.Fits (f : SourceFile) (fault : Option FileError) (next : NextStep) (s : Stage) : Prop :=
  s = .waiting ∨ s = .decided next ∨ s = .done (f.finishUnder fault next).2

/-- The text that a file at some stage has been given. -/
def Stage.given (f : SourceFile) (fault : Option FileError) (next : NextStep) :
    Stage → Option String
  | .done _ => (f.finishUnder fault next).1
  | _ => none

namespace Crew

/-- Each file is at a stage that it would go through alone, it holds what it would hold then, and
nothing else has changed. -/
structure Sound [Grammar] (t : FileTree) (o : SweepOptions) (mode : WriteMode)
    (fs : List SourceFile) (c : Crew) : Prop extends Kept (FileTree.SameShape t) o mode fs c where
  fits : ∀ (i : Nat) (f : SourceFile) (s : Stage), c.files[i]? = some (f, s) →
    s.Fits f (c.faults i) (t.stepFor o mode f)
  held : ∀ (i : Nat) (f : SourceFile) (s : Stage), c.files[i]? = some (f, s) →
    ∀ l, t.fileOf? f.path = some l →
      c.tree.find? l =
        (t.refill (some l) (s.given f (c.faults i) (t.stepFor o mode f))).find? l
  rest : ∀ l, (∀ f ∈ fs, t.fileOf? f.path ≠ some l) → c.tree.find? l = t.find? l

section Steps

variable [Grammar] {t : FileTree} {o : SweepOptions} {mode : WriteMode} {fs : List SourceFile}
  {faults : Nat → Option FileError} {c : Crew}

theorem sound_start (t : FileTree) (o : SweepOptions) (mode : WriteMode) (fs : List SourceFile)
    (faults : Nat → Option FileError) : (start t fs faults).Sound t o mode fs := by
  refine ⟨kept_start (FileTree.SameShape.refl t) faults, ?_, ?_, fun _ _ => rfl⟩
  · intro i f s h
    exact Or.inl (getElem?_start.mp h).2
  · intro i f s h l _
    rw [(getElem?_start.mp h).2]
    rfl

/-- What one step does to the tree: it gives a text to its own file, or none. -/
theorem Sound.advance_eq (h : c.Sound t o mode fs) (hmode : ∀ d, mode ≠ .outDir d) {i : Nat}
    {f : SourceFile} {s : Stage} (hi : c.files[i]? = some (f, s)) :
    ∃ s' text,
      s.advance o mode (c.faults i) f c.tree = (c.tree.refill (t.fileOf? f.path) text, s') ∧
      s'.Fits f (c.faults i) (t.stepFor o mode f) ∧
      ∀ l, t.fileOf? f.path = some l → (c.tree.refill (some l) text).find? l =
        (t.refill (some l) (s'.given f (c.faults i) (t.stepFor o mode f))).find? l := by
  have hheld := h.held i f s hi
  rcases h.fits i f s hi with rfl | rfl | rfl
  · -- The file still holds what it held before the run, so that is what is read.
    have hread : c.tree.readText f.path = t.readText f.path := h.tree.readText_eq hheld
    refine ⟨.decided (t.stepFor o mode f), none, ?_, Or.inr (Or.inl rfl), hheld⟩
    rw [Stage.advance, hread]
    simp [FileTree.refill, FileTree.stepFor]
  · -- What was read holds of the tree before the run, and the tree still has its shape.
    have hperform := FileTree.perform_decide_eq (o := o) hmode (.refl t) h.tree (c.faults i) f
    refine ⟨.done (f.finishUnder (c.faults i) (t.stepFor o mode f)).2,
      (f.finishUnder (c.faults i) (t.stepFor o mode f)).1, ?_, Or.inr (Or.inr rfl), ?_⟩
    · rw [Stage.advance, FileTree.stepFor, hperform]
    · intro l hl
      have hne := FileTree.ne_nil_of_fileOf? hl
      rw [FileTree.find?_refill_self hne, Stage.given, FileTree.find?_refill_self hne, hheld l hl]
      rfl
  · refine ⟨.done (f.finishUnder (c.faults i) (t.stepFor o mode f)).2, none, ?_,
      Or.inr (Or.inr rfl), hheld⟩
    simp [Stage.advance, FileTree.refill]

/-- A step keeps everything as it should be. -/
theorem Sound.turn (h : c.Sound t o mode fs) (hmode : ∀ d, mode ≠ .outDir d) (hfs : t.Apart fs)
    (i : Nat) : (c.turn o mode i).Sound t o mode fs := by
  cases hi : c.files[i]? with
  | none =>
    rw [turn_of_no_file hi]
    exact h
  | some x =>
    obtain ⟨f, s⟩ := x
    obtain ⟨s', text, hstep, hfits, hgiven⟩ := h.advance_eq hmode hi
    have hlt : i < c.files.length := (List.getElem?_eq_some_iff.mp hi).1
    have hf : fs[i]? = some f := h.getElem?_eq hi
    have hkept := h.toKept.turn (FileTree.sameShape_writes hmode t o fs) i
    rw [turn_of_file hi, hstep] at hkept ⊢
    refine ⟨hkept, ?_, ?_, ?_⟩
    · intro j g s₁ hj
      by_cases hij : i = j
      · subst hij
        obtain ⟨rfl, rfl⟩ : f = g ∧ s' = s₁ := by simpa [hlt] using hj
        exact hfits
      · rw [List.getElem?_set_ne hij] at hj
        exact h.fits j g s₁ hj
    · intro j g s₁ hj l hl
      by_cases hij : i = j
      · subst hij
        obtain ⟨rfl, rfl⟩ : f = g ∧ s' = s₁ := by simpa [hlt] using hj
        rw [hl]
        exact hgiven l hl
      · -- The files of the other workers are other files.
        rw [List.getElem?_set_ne hij] at hj
        have hother := hfs.fileOf?_ne (h.getElem?_eq hj) hf (Ne.symm hij) hl
        rw [FileTree.find?_refill_ne hother, h.held j g s₁ hj l hl]
    · intro l hl
      rw [FileTree.find?_refill_ne (hl f (List.mem_of_getElem? hf)), h.rest l hl]

theorem Sound.run (h : c.Sound t o mode fs) (hmode : ∀ d, mode ≠ .outDir d) (hfs : t.Apart fs)
    (schedule : List Nat) : (c.run o mode schedule).Sound t o mode fs := by
  induction schedule generalizing c with
  | nil => exact h
  | cons i schedule ih => exact ih (h.turn hmode hfs i)

/-- Where a file is done, its report is the one that it would have alone. -/
theorem Sound.done_eq (h : c.Sound t o mode fs) {i : Nat} {f : SourceFile} {r : FileReport}
    (hi : c.files[i]? = some (f, .done r)) :
    r = (f.finishUnder (c.faults i) (t.stepFor o mode f)).2 := by
  rcases h.fits i f _ hi with hs | hs | hs
  · simp at hs
  · simp at hs
  · exact Stage.done.inj hs

/-- When every file has had its turns and no fault has shown, the reports and the tree are those of
sweeping each file alone. -/
theorem Sound.eachSwept (h : c.Sound t o mode fs)
    (hdone : ∀ (i : Nat) (f : SourceFile), fs[i]? = some f →
      ∃ r, c.files[i]? = some (f, .done r))
    (hfaults : ∀ (i : Nat) (f : SourceFile), fs[i]? = some f →
      f.finishUnder (c.faults i) (t.stepFor o mode f) = f.finish (t.stepFor o mode f)) :
    c.reports = fs.map (fun f => (f.result o mode (t.readText f.path)).2) ∧
      t.EachSwept o mode fs c.tree := by
  have hstage : ∀ (i : Nat) (f : SourceFile), fs[i]? = some f →
      c.files[i]? = some (f, .done (f.result o mode (t.readText f.path)).2) := by
    intro i f hf
    obtain ⟨r, hr⟩ := hdone i f hf
    rw [hr, h.done_eq hr, hfaults i f hf]
    rfl
  have hfiles : c.files = fs.map (fun f => (f, .done (f.result o mode (t.readText f.path)).2)) := by
    apply List.ext_getElem?
    intro i
    rw [List.getElem?_map]
    cases hi : fs[i]? with
    | none =>
      rw [← h.listed, List.getElem?_map, Option.map_eq_none_iff] at hi
      exact hi
    | some f => exact hstage i f hi
  refine ⟨?_, h.tree, ?_, h.rest⟩
  · rw [reports, hfiles, List.filterMap_map]
    exact congrFun List.filterMap_eq_map fs
  · intro f hf l hl
    obtain ⟨i, hi⟩ := List.mem_iff_getElem?.mp hf
    rw [h.held i f _ (hstage i f hi) l hl, Stage.given, hfaults i f hi]
    rfl

end Steps

/-- However the steps of files that are apart come, once each file has had its two turns and no
fault has shown, the reports and the tree are those of sweeping each file alone. -/
theorem run_start [Grammar] {t : FileTree} {o : SweepOptions} {mode : WriteMode}
    (hmode : ∀ d, mode ≠ .outDir d) {fs : List SourceFile} (hfs : t.Apart fs)
    (faults : Nat → Option FileError)
    (hfaults : ∀ (i : Nat) (f : SourceFile), fs[i]? = some f →
      f.finishUnder (faults i) (t.stepFor o mode f) = f.finish (t.stepFor o mode f))
    {schedule : List Nat} (hall : ∀ i < fs.length, 2 ≤ schedule.count i) :
    ((start t fs faults).run o mode schedule).reports =
        fs.map (fun f => (f.result o mode (t.readText f.path)).2) ∧
      t.EachSwept o mode fs ((start t fs faults).run o mode schedule).tree := by
  have hsound := (sound_start t o mode fs faults).run hmode hfs schedule
  apply hsound.eachSwept
  · intro i f hf
    have hlt : i < fs.length := (List.getElem?_eq_some_iff.mp hf).1
    obtain ⟨_, _, _, _, r, _, _, _, _, _, hdone⟩ :=
      exists_turns_of_count o mode (getElem?_start.mpr ⟨hf, rfl⟩) (hall i hlt)
    exact ⟨r, hdone⟩
  · intro i f hf
    rw [faults_run]
    exact hfaults i f hf

end Crew

namespace FileTree

section Together

variable [Grammar] {t : FileTree} {o : SweepOptions} {mode : WriteMode} {fs : List SourceFile}
  {m : Machine}

/-- Where no write fails, no fault shows. -/
theorem finishUnder_of_writes (hmode : ∀ d, mode ≠ .outDir d) (hfs : t.Apart fs)
    (hwrites : ∀ r ∈ (t.sweepTogether o mode m fs).2, ∀ e, r.status ≠ .writeFailed e) {i : Nat}
    {f : SourceFile} (hf : fs[i]? = some f) :
    f.finishUnder (m.faults i) (t.stepFor o mode f) = f.finish (t.stepFor o mode f) := by
  rcases f.finishUnder_cases (m.faults i) (t.stepFor o mode f) with hsame | ⟨_, e, he⟩
  · exact hsame
  · obtain ⟨r, hr⟩ := exists_done_of_getElem? t o mode m hf
    have hsound := (Crew.sound_start t o mode fs m.faults).run hmode hfs
      (m.turns ++ Crew.inOrder fs.length)
    have hreport := hsound.done_eq hr
    rw [Crew.faults_run] at hreport
    have hmem := List.mem_of_getElem? (getElem?_sweepTogether_iff.mpr ⟨f, hf, hr⟩)
    exact absurd (by rw [hreport]; exact he) (hwrites r hmem e)

/-- Files that are apart, swept side by side where no fault shows. -/
theorem sweepTogether_apart (hmode : ∀ d, mode ≠ .outDir d) (hfs : t.Apart fs)
    (hfaults : ∀ (i : Nat) (f : SourceFile), fs[i]? = some f →
      f.finishUnder (m.faults i) (t.stepFor o mode f) = f.finish (t.stepFor o mode f)) :
    (t.sweepTogether o mode m fs).2 =
        fs.map (fun f => (f.result o mode (t.readText f.path)).2) ∧
      t.EachSwept o mode fs (t.sweepTogether o mode m fs).1 :=
  Crew.run_start hmode hfs m.faults hfaults (fun _ hi => two_le_count_turns m hi)

/-- Files that are apart are swept one after another as if each were alone. -/
theorem sweepFiles_apart (hmode : ∀ d, mode ≠ .outDir d) (hfs : t.Apart fs) (o : SweepOptions) :
    (t.sweepFiles o mode fs).2 = fs.map (fun f => (f.result o mode (t.readText f.path)).2) ∧
      t.EachSwept o mode fs (t.sweepFiles o mode fs).1 := by
  rw [← sweepTogether_alone]
  exact sweepTogether_apart hmode hfs (fun _ _ _ => rfl)

end Together

end FileTree

/-! ## Another content -/

namespace FileTree

/-- Another content of one file shows only to those who read that file. -/
theorem readText_put_ne {t : FileTree} {l : Location} {c : ByteArray}
    (hl : t.find? l = some (.file c)) (content : ByteArray) {p : Path} (hp : t.fileOf? p ≠ some l) :
    (t.put l (.file content)).readText p = t.readText p := by
  apply (sameShape_put_file hl content).readText_eq
  intro k hk
  exact find?_put_ne _ (fun hkl => hp (hkl ▸ hk))

section Content

variable [Grammar] {t after after' : FileTree} {o : SweepOptions} {mode : WriteMode}
  {fs : List SourceFile} {l : Location} {c : ByteArray}

/-- What each file comes to when one of them holds something else. -/
theorem Apart.map_result_put (hfs : t.Apart fs) (hl : t.find? l = some (.file c))
    (content : ByteArray) {i : Nat} {f : SourceFile} (hi : fs[i]? = some f)
    (hf : t.fileOf? f.path = some l) (o : SweepOptions) (mode : WriteMode) :
    fs.map (fun g => (g.result o mode ((t.put l (.file content)).readText g.path)).2) =
      (fs.map (fun g => (g.result o mode (t.readText g.path)).2)).set i
        (f.result o mode ((t.put l (.file content)).readText f.path)).2 := by
  apply List.ext_getElem?
  intro j
  have hlt : i < fs.length := (List.getElem?_eq_some_iff.mp hi).1
  by_cases hij : i = j
  · subst hij
    rw [List.getElem?_set_self (by simpa using hlt), List.getElem?_map, hi]
    rfl
  · rw [List.getElem?_set_ne hij, List.getElem?_map, List.getElem?_map]
    cases hj : fs[j]? with
    | none => rfl
    | some g =>
      have hother : t.fileOf? g.path ≠ some l := hfs.fileOf?_ne hi hj hij hf
      rw [Option.map_some, Option.map_some, readText_put_ne hl content hother]

theorem EachSwept.find?_put_ne (hl : t.find? l = some (.file c)) {content : ByteArray}
    (h : t.EachSwept o mode fs after) (h' : (t.put l (.file content)).EachSwept o mode fs after')
    {k : Location} (hk : k ≠ l) : after'.find? k = after.find? k := by
  have hshape := sameShape_put_file hl content
  by_cases hlisted : ∃ g ∈ fs, t.fileOf? g.path = some k
  · obtain ⟨g, hg, hgk⟩ := hlisted
    have hother : t.fileOf? g.path ≠ some l := by
      rw [hgk]
      simpa using hk
    have hne := ne_nil_of_fileOf? hgk
    rw [h.swept g hg k hgk, h'.swept g hg k (by rw [hshape.fileOf?_eq, hgk]),
      readText_put_ne hl content hother, find?_refill_self hne, find?_refill_self hne,
      FileTree.find?_put_ne _ hk]
  · have hnone : ∀ g ∈ fs, t.fileOf? g.path ≠ some k := fun g hg hgk => hlisted ⟨g, hg, hgk⟩
    rw [h.rest k hnone, h'.rest k (fun g hg => by rw [hshape.fileOf?_eq]; exact hnone g hg),
      FileTree.find?_put_ne _ hk]

end Content

end FileTree

/-! ## The law -/

/-- Files are swept where they stand, and no two of the paths lead to the same file. Then every
schedule that gives each file its turn to be read and its turn to be written leads to the reports,
the totals and the tree of sweeping the files one after another. And if one of the files held
something else, anything at all, its own report would be another and it would hold another text
itself, both as if it were swept alone, and nothing else would change. -/
theorem files_apart_are_swept_alike_in_any_order [Grammar] (t : FileTree) (o : SweepOptions)
    (mode : WriteMode) (hmode : ∀ d, mode ≠ .outDir d) (fs : List SourceFile) (hfs : t.Apart fs) :
    (∀ schedule : List Nat, (∀ i < fs.length, 2 ≤ schedule.count i) →
      ((Crew.start t fs).run o mode schedule).reports = (t.sweepFiles o mode fs).2 ∧
      Summary.ofReports ((Crew.start t fs).run o mode schedule).reports =
        Summary.ofReports (t.sweepFiles o mode fs).2 ∧
      ((Crew.start t fs).run o mode schedule).tree.workDir =
        (t.sweepFiles o mode fs).1.workDir ∧
      ∀ l, ((Crew.start t fs).run o mode schedule).tree.find? l =
        (t.sweepFiles o mode fs).1.find? l) ∧
    (∀ (i : Nat) (f : SourceFile) (l : Location) (c content : ByteArray), fs[i]? = some f →
      t.locate f.path = .ok (l, .file c) →
      ((t.put l (.file content)).sweepFiles o mode fs).2 =
        (t.sweepFiles o mode fs).2.set i ((t.put l (.file content)).sweepFile o mode f).2 ∧
      ((t.put l (.file content)).sweepFiles o mode fs).1.find? l =
        ((t.put l (.file content)).sweepFile o mode f).1.find? l ∧
      ∀ k, k ≠ l → ((t.put l (.file content)).sweepFiles o mode fs).1.find? k =
        (t.sweepFiles o mode fs).1.find? k) := by
  obtain ⟨hreports, heach⟩ := FileTree.sweepFiles_apart hmode hfs o
  constructor
  · intro schedule hall
    obtain ⟨hreports', heach'⟩ :=
      Crew.run_start (o := o) hmode hfs (fun _ => none) (fun _ _ _ => rfl) hall
    have hsame : ((Crew.start t fs).run o mode schedule).reports = (t.sweepFiles o mode fs).2 :=
      hreports'.trans hreports.symm
    refine ⟨hsame, by rw [hsame], ?_, heach'.find?_eq heach⟩
    rw [heach'.shape.grown.workDir, heach.shape.grown.workDir]
  · intro i f l c content hi hl
    have hfind : t.find? l = some (.file c) := (FileTree.locate_eq_ok_iff.mp hl).2.2
    have hf : t.fileOf? f.path = some l := FileTree.fileOf?_eq_some_iff.mpr ⟨c, hl⟩
    have hshape := FileTree.sameShape_put_file hfind content
    obtain ⟨hreports', heach'⟩ := FileTree.sweepFiles_apart hmode (hshape.apart hfs) o
    rw [FileTree.sweepFile_eq hmode, hreports, hreports']
    refine ⟨hfs.map_result_put hfind content hi hf o mode, ?_, ?_⟩
    · rw [heach'.swept f (List.mem_of_getElem? hi) l (by rw [hshape.fileOf?_eq, hf]),
        hshape.fileOf?_eq, hf]
    · intro k hk
      exact heach.find?_put_ne hfind heach' hk

/-- A file with a log, and one that cannot be read as a script. -/
def logBesideFault : FileTree :=
  ⟨[], [(["a.js"], .file "console.log(1)".toUTF8), (["b.js"], .file "f(".toUTF8)]⟩

/-- Both files are read before the first of them is written. -/
theorem a_log_beside_a_fault_is_swept :
    logBesideFault.Apart [⟨⟨["a.js"]⟩, ⟨["a.js"]⟩⟩, ⟨⟨["b.js"]⟩, ⟨["b.js"]⟩⟩] ∧
      ((Crew.start logBesideFault [⟨⟨["a.js"]⟩, ⟨["a.js"]⟩⟩, ⟨⟨["b.js"]⟩, ⟨["b.js"]⟩⟩]).run
          ⟨.standard, none, false⟩ .inPlace [1, 0, 1, 0]).reports =
        (logBesideFault.sweepFiles ⟨.standard, none, false⟩ .inPlace
          [⟨⟨["a.js"]⟩, ⟨["a.js"]⟩⟩, ⟨⟨["b.js"]⟩, ⟨["b.js"]⟩⟩]).2 ∧
      ((Crew.start logBesideFault [⟨⟨["a.js"]⟩, ⟨["a.js"]⟩⟩, ⟨⟨["b.js"]⟩, ⟨["b.js"]⟩⟩]).run
          ⟨.standard, none, false⟩ .inPlace [1, 0, 1, 0]).tree.find? ["a.js"] =
        some (.file "null /* console.log(1) */".toUTF8) := by
  have hfs : logBesideFault.Apart [⟨⟨["a.js"]⟩, ⟨["a.js"]⟩⟩, ⟨⟨["b.js"]⟩, ⟨["b.js"]⟩⟩] := by
    decide +kernel
  obtain ⟨hany, _⟩ := files_apart_are_swept_alike_in_any_order logBesideFault
    ⟨.standard, none, false⟩ .inPlace (by simp) _ hfs
  obtain ⟨hreports, _, _, htree⟩ := hany [1, 0, 1, 0] (by decide)
  refine ⟨hfs, hreports, ?_⟩
  rw [htree]
  decide +kernel

end LogSweep
