-- What workers keep who share a tree. A file takes two turns and the turns at other files leave it
-- where it is, so a schedule decides only which tree is read and which is written to. What every
-- such write keeps of a tree, a whole run keeps.
import LogSweep.Proofs.FilesApart

namespace LogSweep

/-! ## Turns -/

namespace Crew

section Turns

variable [Grammar] {c : Crew} {i j : Nat} {f : SourceFile} {s : Stage}

theorem turn_of_file (h : c.files[i]? = some (f, s)) (o : SweepOptions) (mode : WriteMode) :
    c.turn o mode i =
      { c with
        tree := (s.advance o mode (c.faults i) f c.tree).1
        files := c.files.set i (f, (s.advance o mode (c.faults i) f c.tree).2) } := by
  rw [turn, h]

theorem turn_of_no_file (h : c.files[i]? = none) (o : SweepOptions) (mode : WriteMode) :
    c.turn o mode i = c := by
  rw [turn, h]

theorem turn_of_done {r : FileReport} (h : c.files[i]? = some (f, .done r)) (o : SweepOptions)
    (mode : WriteMode) : c.turn o mode i = c := by
  obtain ⟨hlt, hi⟩ := List.getElem?_eq_some_iff.mp h
  have hset : c.files.set i (f, .done r) = c.files := by
    rw [← hi, List.set_getElem_self]
  rw [turn_of_file h, Stage.advance, hset]

/-- A turn is one of three things: nothing, a file that is read, or a decision that is carried
out. -/
theorem turn_cases (c : Crew) (o : SweepOptions) (mode : WriteMode) (i : Nat) :
    c.turn o mode i = c ∨
      (∃ f, c.files[i]? = some (f, .waiting) ∧
        c.turn o mode i =
          { c with
            files := c.files.set i (f, .decided (f.decide o mode (c.tree.readText f.path))) }) ∨
      ∃ f next, c.files[i]? = some (f, .decided next) ∧
        c.turn o mode i =
          { c with
            tree := (f.perform mode (c.faults i) c.tree next).1
            files := c.files.set i (f, .done (f.perform mode (c.faults i) c.tree next).2) } := by
  rcases hi : c.files[i]? with _ | ⟨f, s⟩
  · exact Or.inl (turn_of_no_file hi o mode)
  · cases s with
    | waiting => exact Or.inr (Or.inl ⟨f, rfl, turn_of_file hi o mode⟩)
    | decided next => exact Or.inr (Or.inr ⟨f, next, rfl, turn_of_file hi o mode⟩)
    | done r => exact Or.inl (turn_of_done hi o mode)

theorem getElem?_turn_self (h : c.files[i]? = some (f, s)) (o : SweepOptions) (mode : WriteMode) :
    (c.turn o mode i).files[i]? =
      some (f, (s.advance o mode (c.faults i) f c.tree).2) := by
  rw [turn_of_file h]
  exact List.getElem?_set_self (List.getElem?_eq_some_iff.mp h).1

theorem getElem?_turn_ne (h : i ≠ j) (c : Crew) (o : SweepOptions) (mode : WriteMode) :
    (c.turn o mode i).files[j]? = c.files[j]? := by
  rcases hi : c.files[i]? with _ | ⟨f, s⟩
  · rw [turn_of_no_file hi]
  · rw [turn_of_file hi]
    exact List.getElem?_set_ne h

theorem map_fst_turn (c : Crew) (o : SweepOptions) (mode : WriteMode) (i : Nat) :
    (c.turn o mode i).files.map Prod.fst = c.files.map Prod.fst := by
  rcases hi : c.files[i]? with _ | ⟨f, s⟩
  · rw [turn_of_no_file hi]
  · obtain ⟨hlt, hfi⟩ := List.getElem?_eq_some_iff.mp hi
    have hlt' : i < (c.files.map Prod.fst).length := by simpa using hlt
    have hf : (c.files.map Prod.fst)[i] = f := by simp [hfi]
    rw [turn_of_file hi, List.map_set, ← hf, List.set_getElem_self]

end Turns

/-! ## Schedules -/

section Schedules

variable [Grammar] {o : SweepOptions} {mode : WriteMode} {c : Crew} {i : Nat} {f : SourceFile}

theorem run_append (c : Crew) (o : SweepOptions) (mode : WriteMode) (front back : List Nat) :
    c.run o mode (front ++ back) = (c.run o mode front).run o mode back :=
  List.foldl_append

theorem map_fst_run (c : Crew) (o : SweepOptions) (mode : WriteMode) (schedule : List Nat) :
    (c.run o mode schedule).files.map Prod.fst = c.files.map Prod.fst := by
  induction schedule generalizing c with
  | nil => rfl
  | cons i schedule ih => exact (ih _).trans (c.map_fst_turn o mode i)

theorem faults_run (c : Crew) (o : SweepOptions) (mode : WriteMode) (schedule : List Nat) :
    (c.run o mode schedule).faults = c.faults := by
  induction schedule generalizing c with
  | nil => rfl
  | cons i schedule ih =>
    refine (ih _).trans ?_
    rcases hi : c.files[i]? with _ | ⟨f, s⟩
    · rw [turn_of_no_file hi]
    · rw [turn_of_file hi]

theorem getElem?_run_of_not_mem {schedule : List Nat} (h : i ∉ schedule) :
    (c.run o mode schedule).files[i]? = c.files[i]? := by
  induction schedule generalizing c with
  | nil => rfl
  | cons j schedule ih =>
    obtain ⟨hij, hrest⟩ := List.ne_and_not_mem_of_not_mem_cons h
    exact (ih hrest).trans (getElem?_turn_ne (Ne.symm hij) c o mode)

/-- A file that is done stays done. -/
theorem getElem?_run_of_done {r : FileReport} (h : c.files[i]? = some (f, .done r))
    (schedule : List Nat) : (c.run o mode schedule).files[i]? = some (f, .done r) := by
  induction schedule generalizing c with
  | nil => exact h
  | cons j schedule ih =>
    apply ih
    by_cases hij : j = i
    · rw [hij, turn_of_done h, h]
    · rw [getElem?_turn_ne hij, h]

/-- Where a schedule has two turns for a file, the file is read in the first of them. What was
decided then is carried out in the second, and no later turn changes its report. -/
theorem exists_turns_of_count (o : SweepOptions) (mode : WriteMode) {schedule : List Nat}
    (hi : c.files[i]? = some (f, .waiting)) (hcount : 2 ≤ schedule.count i) :
    ∃ before between later after r, schedule = before ++ i :: (between ++ i :: later) ∧
      i ∉ before ∧
      f.perform mode (c.faults i) (c.run o mode (before ++ i :: between)).tree
        (f.decide o mode ((c.run o mode before).tree.readText f.path)) = (after, r) ∧
      (c.run o mode (before ++ i :: (between ++ [i]))).tree = after ∧
      (c.run o mode (before ++ i :: (between ++ [i]))).files[i]? = some (f, .done r) ∧
      (c.run o mode schedule).files[i]? = some (f, .done r) := by
  obtain ⟨before, rest, rfl, hbefore⟩ :=
    List.eq_append_cons_of_mem (List.count_pos_iff.mp (by omega : 0 < schedule.count i))
  have hrest : 0 < rest.count i := by
    rw [List.count_append, List.count_eq_zero_of_not_mem hbefore, List.count_cons_self] at hcount
    omega
  obtain ⟨between, later, rfl, hbetween⟩ := List.eq_append_cons_of_mem (List.count_pos_iff.mp hrest)
  have hread : (c.run o mode (before ++ i :: between)).files[i]? =
      some (f, .decided (f.decide o mode ((c.run o mode before).tree.readText f.path))) := by
    rw [run_append, run, List.foldl_cons]
    exact (getElem?_run_of_not_mem hbetween).trans
      (getElem?_turn_self ((getElem?_run_of_not_mem hbefore).trans hi) o mode)
  -- The second turn carries the decision out, and what follows leaves the file as it is.
  have hlast : c.run o mode (before ++ i :: (between ++ [i])) =
      (c.run o mode (before ++ i :: between)).turn o mode i := by
    rw [show before ++ i :: (between ++ [i]) = (before ++ i :: between) ++ [i] by simp, run_append]
    rfl
  have hall : c.run o mode (before ++ i :: (between ++ i :: later)) =
      (c.run o mode (before ++ i :: (between ++ [i]))).run o mode later := by
    rw [← run_append]
    simp
  have hdone := getElem?_turn_self hread o mode
  rw [← hlast, faults_run] at hdone
  refine ⟨before, between, later, _, _, rfl, hbefore, rfl, ?_, hdone, ?_⟩
  · rw [hlast, turn_of_file hread, faults_run]
    rfl
  · rw [hall]
    exact getElem?_run_of_done hdone later

end Schedules

/-! ## What every write keeps -/

/-- Something holds of the tree, and everything that is left to do was decided from a tree of which
it held. -/
structure Kept [Grammar] (R : FileTree → Prop) (o : SweepOptions) (mode : WriteMode)
    (fs : List SourceFile) (c : Crew) : Prop where
  listed : c.files.map Prod.fst = fs
  tree : R c.tree
  decided : ∀ (i : Nat) (f : SourceFile) (next : NextStep), c.files[i]? = some (f, .decided next) →
    ∃ t, R t ∧ next = f.decide o mode (t.readText f.path)

/-- Whether something is kept when what was decided from one tree is carried out in another. -/
def KeptByWrites [Grammar] (R : FileTree → Prop) (o : SweepOptions) (mode : WriteMode)
    (fs : List SourceFile) : Prop :=
  ∀ f ∈ fs, ∀ (fault : Option FileError) (t t' : FileTree), R t → R t' →
    R (f.perform mode fault t' (f.decide o mode (t.readText f.path))).1

section Keeping

variable [Grammar] {R : FileTree → Prop} {o : SweepOptions} {mode : WriteMode}
  {fs : List SourceFile} {c : Crew}

omit [Grammar] in
theorem getElem?_start {t : FileTree} {faults : Nat → Option FileError} {i : Nat} {f : SourceFile}
    {s : Stage} : (start t fs faults).files[i]? = some (f, s) ↔ fs[i]? = some f ∧ s = .waiting := by
  rw [start, List.getElem?_map, Option.map_eq_some_iff]
  constructor
  · rintro ⟨g, hg, heq⟩
    obtain ⟨rfl, rfl⟩ := Prod.mk.inj heq
    exact ⟨hg, rfl⟩
  · rintro ⟨hf, rfl⟩
    exact ⟨f, hf, rfl⟩

theorem kept_start {t : FileTree} (h : R t) (faults : Nat → Option FileError) :
    (start t fs faults).Kept R o mode fs := by
  refine ⟨by simp [start, Function.comp_def], h, ?_⟩
  intro i f next hi
  simp [getElem?_start] at hi

theorem Kept.getElem?_eq (h : c.Kept R o mode fs) {i : Nat} {f : SourceFile} {s : Stage}
    (hi : c.files[i]? = some (f, s)) : fs[i]? = some f := by
  rw [← h.listed, List.getElem?_map, hi]
  rfl

theorem Kept.turn (h : c.Kept R o mode fs) (hwrites : KeptByWrites R o mode fs) (i : Nat) :
    (c.turn o mode i).Kept R o mode fs := by
  have hlisted := (c.map_fst_turn o mode i).trans h.listed
  rcases c.turn_cases o mode i with
    hsame | ⟨f, hi, hturn⟩ | ⟨f, next, hi, hturn⟩
  · rwa [hsame]
  · have hlt := (List.getElem?_eq_some_iff.mp hi).1
    refine ⟨hlisted, by rw [hturn]; exact h.tree, ?_⟩
    intro j g next hj
    by_cases hij : i = j
    · subst hij
      obtain ⟨rfl, rfl⟩ :
          f = g ∧ f.decide o mode (c.tree.readText f.path) = next := by simpa [hturn, hlt] using hj
      exact ⟨c.tree, h.tree, rfl⟩
    · rw [getElem?_turn_ne hij] at hj
      exact h.decided j g next hj
  · have hlt := (List.getElem?_eq_some_iff.mp hi).1
    refine ⟨hlisted, ?_, ?_⟩
    · obtain ⟨t, ht, rfl⟩ := h.decided i f next hi
      rw [hturn]
      exact hwrites f (List.mem_of_getElem? (h.getElem?_eq hi)) (c.faults i) t c.tree ht h.tree
    · intro j g next' hj
      by_cases hij : i = j
      · subst hij
        simp [hturn, hlt] at hj
      · rw [getElem?_turn_ne hij] at hj
        exact h.decided j g next' hj

/-- What writes keep, every schedule keeps. -/
theorem Kept.run (h : c.Kept R o mode fs) (hwrites : KeptByWrites R o mode fs)
    (schedule : List Nat) : (c.run o mode schedule).Kept R o mode fs := by
  induction schedule generalizing c with
  | nil => exact h
  | cons i schedule ih => exact ih (h.turn hwrites i)

end Keeping

/-! ## Until every file is done -/

theorem two_le_count_inOrder {n i : Nat} (h : i < n) : 2 ≤ (inOrder n).count i := by
  induction n with
  | zero => omega
  | succ n ih =>
    have hlast : inOrder (n + 1) = inOrder n ++ [n, n] := by
      simp [inOrder, List.range_succ]
    rw [hlast, List.count_append]
    by_cases hin : i = n
    · simp [hin]
    · have := ih (by omega)
      omega

/-- Where all files are done, the reports are those of the files. -/
theorem getElem?_reports {c : Crew} (h : ∀ x ∈ c.files, ∃ r, x.2 = .done r) (i : Nat) :
    c.reports[i]? = (c.files[i]?).bind (fun x => x.2.report?) := by
  unfold reports
  generalize c.files = files at h ⊢
  induction files generalizing i with
  | nil => rfl
  | cons x files ih =>
    obtain ⟨⟨r, hr⟩, hrest⟩ := List.forall_mem_cons.mp h
    have hreport : x.2.report? = some r := by rw [hr]; rfl
    have hcons : (x :: files).filterMap (fun x => x.2.report?) =
        r :: files.filterMap (fun x => x.2.report?) := by
      simp [hreport]
    rw [hcons]
    cases i with
    | zero => exact hreport.symm
    | succ i => exact ih i hrest

end Crew

/-! ## Sweeping together -/

namespace FileTree

section Together

variable [Grammar] {t : FileTree} {o : SweepOptions} {mode : WriteMode} {m : Machine}
  {fs : List SourceFile}

theorem map_fst_crewAfter (t : FileTree) (o : SweepOptions) (mode : WriteMode) (m : Machine)
    (fs : List SourceFile) : (t.crewAfter o mode m fs).files.map Prod.fst = fs := by
  rw [crewAfter, Crew.map_fst_run]
  simp [Crew.start, Function.comp_def]

theorem getElem?_of_crewAfter {i : Nat} {x : SourceFile × Stage}
    (h : (t.crewAfter o mode m fs).files[i]? = some x) : fs[i]? = some x.1 := by
  rw [← t.map_fst_crewAfter o mode m fs, List.getElem?_map, h]
  rfl

omit [Grammar] in
theorem two_le_count_turns (m : Machine) {i : Nat} (h : i < fs.length) :
    2 ≤ (m.turns ++ Crew.inOrder fs.length).count i := by
  rw [List.count_append]
  have := Crew.two_le_count_inOrder h
  omega

/-- In the end every file is done. -/
theorem exists_done_of_getElem? (t : FileTree) (o : SweepOptions) (mode : WriteMode) (m : Machine)
    {i : Nat} {f : SourceFile} (h : fs[i]? = some f) :
    ∃ r, (t.crewAfter o mode m fs).files[i]? = some (f, .done r) := by
  have hi : (Crew.start t fs m.faults).files[i]? = some (f, .waiting) :=
    Crew.getElem?_start.mpr ⟨h, rfl⟩
  obtain ⟨_, _, _, _, r, _, _, _, _, _, hdone⟩ := Crew.exists_turns_of_count o mode hi
    (two_le_count_turns m (List.getElem?_eq_some_iff.mp h).1)
  exact ⟨r, hdone⟩

theorem getElem?_sweepTogether_iff {i : Nat} {r : FileReport} :
    (t.sweepTogether o mode m fs).2[i]? = some r ↔
      ∃ f, fs[i]? = some f ∧ (t.crewAfter o mode m fs).files[i]? = some (f, .done r) := by
  have hall : ∀ x ∈ (t.crewAfter o mode m fs).files, ∃ r, x.2 = .done r := by
    intro x hx
    obtain ⟨j, hj⟩ := List.mem_iff_getElem?.mp hx
    obtain ⟨r, hr⟩ := exists_done_of_getElem? t o mode m (getElem?_of_crewAfter hj)
    rw [hj] at hr
    exact ⟨r, by rw [Option.some.inj hr]⟩
  rw [sweepTogether, Crew.getElem?_reports hall, Option.bind_eq_some_iff]
  constructor
  · rintro ⟨x, hx, hreport⟩
    obtain ⟨r', hr'⟩ := exists_done_of_getElem? t o mode m (getElem?_of_crewAfter hx)
    rw [hx] at hr'
    have hx' := Option.some.inj hr'
    obtain rfl : r' = r := by
      rw [hx'] at hreport
      exact Option.some.inj hreport
    exact ⟨x.1, getElem?_of_crewAfter hx, hx.trans hr'⟩
  · rintro ⟨f, _, hf⟩
    exact ⟨_, hf, rfl⟩

end Together

theorem sweepTogether_nil [Grammar] (t : FileTree) (o : SweepOptions) (mode : WriteMode)
    (m : Machine) : (t.sweepTogether o mode m []).1 = t := by
  have hkept : (Crew.start t [] m.faults).Kept (fun t' => t = t') o mode [] :=
    Crew.kept_start rfl m.faults
  exact (hkept.run (by simp [Crew.KeptByWrites]) (m.turns ++ Crew.inOrder 0)).tree.symm

/-- A worker who is alone takes up the files behind those that are done. -/
theorem run_inOrder [Grammar] (t : FileTree) (o : SweepOptions) (mode : WriteMode)
    (earlier : List (SourceFile × FileReport)) (fs : List SourceFile) :
    let c : Crew := ⟨t, fun _ => none,
      earlier.map (fun x => (x.1, .done x.2)) ++ fs.map (fun f => (f, .waiting))⟩
    let c' := c.run o mode
      ((List.range' earlier.length fs.length).flatMap (fun i => [i, i]))
    c'.tree = (t.sweepFiles o mode fs).1 ∧
      c'.reports = earlier.map Prod.snd ++ (t.sweepFiles o mode fs).2 := by
  induction fs generalizing t earlier with
  | nil =>
    refine ⟨rfl, ?_⟩
    simp [Crew.run, Crew.reports, sweepFiles, List.filterMap_map, Stage.report?]
  | cons f fs ih =>
    obtain ⟨htree, hreports⟩ := ih (t.sweepFile o mode f).1
      (earlier ++ [(f, (t.sweepFile o mode f).2)])
    -- Its two turns leave the file done, and the tree is the one that its sweep leaves.
    have hturns : (((⟨t, fun _ => none, earlier.map (fun x => (x.1, Stage.done x.2)) ++
          (f :: fs).map (fun f => (f, .waiting))⟩ : Crew).turn o mode earlier.length).turn o mode
            earlier.length) =
        ⟨(t.sweepFile o mode f).1, fun _ => none,
          (earlier ++ [(f, (t.sweepFile o mode f).2)]).map (fun x => (x.1, .done x.2)) ++
            fs.map (fun f => (f, .waiting))⟩ := by
      simp [Crew.turn, Stage.advance, sweepFile]
    simp only [List.length_cons, List.range'_succ, List.flatMap_cons, Crew.run_append]
    have hfirst : ∀ c : Crew, c.run o mode [earlier.length, earlier.length] =
        (c.turn o mode earlier.length).turn o mode earlier.length := fun _ => rfl
    rw [hfirst, hturns, sweepFiles_cons]
    simp only [List.length_append, List.length_singleton] at htree hreports
    exact ⟨htree, by simpa using hreports⟩

/-- A worker who is alone and meets no fault sweeps one file after another. -/
theorem sweepTogether_alone [Grammar] (t : FileTree) (o : SweepOptions) (mode : WriteMode)
    (fs : List SourceFile) : t.sweepTogether o mode {} fs = t.sweepFiles o mode fs := by
  obtain ⟨htree, hreports⟩ := run_inOrder t o mode [] fs
  simp only [List.map_nil, List.nil_append, List.length_nil, ← List.range_eq_range']
    at htree hreports
  exact Prod.ext htree hreports

/-! ## Files where they stand -/

section Standing

variable [Grammar] {t : FileTree} {o : SweepOptions} {mode : WriteMode} {fs : List SourceFile}

/-- Carrying out what was decided about a file that is swept where it stands: the file is given its
new text, if there is one. -/
theorem perform_decide_eq (hmode : ∀ d, mode ≠ .outDir d) {t₁ t₂ : FileTree} (h₁ : SameShape t t₁)
    (h₂ : SameShape t t₂) (fault : Option FileError) (f : SourceFile) :
    f.perform mode fault t₂ (f.decide o mode (t₁.readText f.path)) =
      (t₂.refill (t.fileOf? f.path)
          (f.finishUnder fault (f.decide o mode (t₁.readText f.path))).1,
        (f.finishUnder fault (f.decide o mode (t₁.readText f.path))).2) := by
  have hfile : ∀ text r, f.decide o mode (t₁.readText f.path) = .write text r →
      ∃ l, t₂.fileOf? f.path = some l := by
    intro text r h
    rw [h₂.fileOf?_eq, ← h₁.fileOf?_eq]
    exact exists_fileOf?_of_decide h
  rw [SourceFile.perform_eq hmode hfile fault, h₂.fileOf?_eq]

/-- Where results do not go elsewhere, a run makes and deletes nothing. -/
theorem sameShape_writes (hmode : ∀ d, mode ≠ .outDir d) (t : FileTree) (o : SweepOptions)
    (fs : List SourceFile) : Crew.KeptByWrites (SameShape t) o mode fs := by
  intro f _ fault t₁ t₂ h₁ h₂
  rw [perform_decide_eq hmode h₁ h₂, ← h₂.fileOf?_eq]
  exact h₂.trans (sameShape_refill _)

theorem kept_sameShape (hmode : ∀ d, mode ≠ .outDir d) (t : FileTree) (o : SweepOptions)
    (fs : List SourceFile) (faults : Nat → Option FileError) (schedule : List Nat) :
    ((Crew.start t fs faults).run o mode schedule).Kept (SameShape t) o mode fs :=
  (Crew.kept_start (SameShape.refl t) faults).run (sameShape_writes hmode t o fs) schedule

end Standing

end FileTree

end LogSweep
