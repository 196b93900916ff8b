-- What a run may touch. A run that writes no results leaves the tree as it is. In place, only files
-- with stripped calls hold something else. Into an output directory, that directory and those above
-- it as it is written are made, and all else that changes lies inside it.
import LogSweep.Proofs.MadeDirectories

namespace LogSweep

/-! ## Options that exclude each other -/

namespace Draft

theorem exists_of_has {d : Draft} {f : Flag} (h : d.has f = true) : ∃ v, (f, v) ∈ d.settled := by
  rw [has, List.any_eq_true] at h
  obtain ⟨⟨g, v⟩, hmem, hg⟩ := h
  exact ⟨v, of_decide_eq_true hg ▸ hmem⟩

theorem exists_of_values {d : Draft} {f : Flag} {v : String} (h : (d.values f).head? = some v) :
    (f, v) ∈ d.settled := by
  have hmem := List.mem_of_head? h
  rw [values, List.mem_map] at hmem
  obtain ⟨⟨g, w⟩, hsettled, rfl⟩ := hmem
  obtain ⟨hsettled, hg⟩ := List.mem_filter.mp hsettled
  exact of_decide_eq_true hg ▸ hsettled

/-- Where at most one option says where results go, any two that do are the same. -/
theorem eq_of_isExclusive {d : Draft}
    (hone : (d.settled.filter (fun s => s.1.isExclusive)).length ≤ 1) {f g : Flag} {v w : String}
    (hf : (f, v) ∈ d.settled) (hg : (g, w) ∈ d.settled) (hfx : f.isExclusive = true)
    (hgx : g.isExclusive = true) : f = g := by
  have hf' : (f, v) ∈ d.settled.filter (fun s => s.1.isExclusive) := List.mem_filter.mpr ⟨hf, hfx⟩
  have hg' : (g, w) ∈ d.settled.filter (fun s => s.1.isExclusive) := List.mem_filter.mpr ⟨hg, hgx⟩
  rcases hlist : d.settled.filter (fun s => s.1.isExclusive) with _ | ⟨x, _ | ⟨y, rest⟩⟩
  · rw [hlist] at hf'
    simp at hf'
  · rw [hlist, List.mem_singleton] at hf' hg'
    exact congrArg Prod.fst (hf'.trans hg'.symm)
  · rw [hlist] at hone
    simp at hone

end Draft

theorem Arguments.exists_draft_of_parse {args : List String} {a : Arguments}
    (h : Arguments.parse args = .ok a) :
    ∃ d : Draft, a.strip = d.strip ∧
      (d.settled.filter (fun s => s.1.isExclusive)).length ≤ 1 := by
  unfold Arguments.parse at h
  simp only [bind, Except.bind] at h
  split at h
  · simp at h
  · split at h
    · simp at h
    · split at h
      · simp at h
      · rename_i d _
        split at h
        · simp [throw, throwThe, MonadExceptOf.throw] at h
        · rename_i hone
          exact ⟨d, by rw [← Except.ok.inj h], by omega⟩

/-- Asked to write nothing, a run has no output directory either. -/
theorem Arguments.outDir_of_parse {args : List String} {a : Arguments}
    (h : Arguments.parse args = .ok a)
    (hnothing : a.strip.dryRun = true ∨ a.strip.check = true ∨ a.strip.stdout = true) :
    a.strip.outDir = none := by
  obtain ⟨d, hstrip, hone⟩ := Arguments.exists_draft_of_parse h
  rw [hstrip] at hnothing ⊢
  obtain ⟨f, hhas, hfx, hf⟩ : ∃ f, d.has f = true ∧ f.isExclusive = true ∧ f ≠ .outDir := by
    rcases hnothing with hhas | hhas | hhas
    · exact ⟨.dryRun, hhas, rfl, by simp⟩
    · exact ⟨.check, hhas, rfl, by simp⟩
    · exact ⟨.stdout, hhas, rfl, by simp⟩
  obtain ⟨v, hv⟩ := Draft.exists_of_has hhas
  cases hdir : (d.values .outDir).head? with
  | none => exact hdir
  | some w =>
    exact absurd (Draft.eq_of_isExclusive hone hv (Draft.exists_of_values hdir) hfx rfl) hf

namespace WriteMode

/-- Whether results go nowhere. -/
def WritesNothing (m : WriteMode) : Prop := m ≠ .inPlace ∧ ∀ d, m ≠ .outDir d

theorem writesNothing_ofArgs {a : StripArgs} (hdir : a.outDir = none)
    (h : a.dryRun = true ∨ a.check = true ∨ a.stdout = true) : (ofArgs a).WritesNothing := by
  unfold ofArgs WritesNothing
  rw [hdir]
  by_cases hstdout : a.stdout = true
  · simp [hstdout]
  · by_cases hcheck : a.check = true
    · simp [hstdout, hcheck]
    · have hdry : a.dryRun = true := by simp_all
      simp [hstdout, hcheck, hdry]

end WriteMode

namespace FileTree

/-! ## Files where they stand -/

/-- Where results go nowhere, workers leave the tree as it is. -/
theorem sweepTogether_of_writesNothing [Grammar] {mode : WriteMode} (hmode : mode.WritesNothing)
    (t : FileTree) (o : SweepOptions) (m : Machine) (fs : List SourceFile) :
    (t.sweepTogether o mode m fs).1 = t := by
  have hwrites : Crew.KeptByWrites (fun t' => t = t') o mode fs := by
    rintro f _ fault _ _ rfl rfl
    have hnone : (f.finishUnder fault (f.decide o mode (t.readText f.path))).1 = none := by
      rcases f.finishUnder_cases fault (f.decide o mode (t.readText f.path)) with hsame | ⟨hnone, _⟩
      · rw [hsame]
        exact SourceFile.result_of_no_write hmode.1 hmode.2 f o _
      · exact hnone
    rw [perform_decide_eq hmode.2 (SameShape.refl t) (SameShape.refl t), hnone, refill_none]
  have hstart : (Crew.start t fs m.faults).Kept (fun t' => t = t') o mode fs :=
    Crew.kept_start rfl m.faults
  exact (hstart.run hwrites (m.turns ++ Crew.inOrder fs.length)).tree.symm

/-- A file that a turn in place changes is the one that the turn is for, and has calls stripped. -/
theorem stripped_of_turn [Grammar] {t : FileTree} {o : SweepOptions} {fs : List SourceFile}
    {c : Crew} (h : c.Kept (SameShape t) o .inPlace fs) {i : Nat} {l : Location}
    (hl : (c.turn o .inPlace i).tree.find? l ≠ c.tree.find? l) :
    ∃ (f : SourceFile) (r : FileReport), (c.turn o .inPlace i).files[i]? = some (f, .done r) ∧
      r.status = .stripped ∧ t.fileOf? f.path = some l := by
  rcases c.turn_cases o .inPlace i with hsame | ⟨f, _, hturn⟩ | ⟨f, next, hi, hturn⟩
  · exact absurd (by rw [hsame]) hl
  · exact absurd (by rw [hturn]) hl
  · obtain ⟨t', ht', rfl⟩ := h.decided i f next hi
    rw [perform_decide_eq (by simp) ht' h.tree] at hturn
    rw [hturn] at hl ⊢
    have hfile : t.fileOf? f.path = some l := by
      by_contra hother
      exact hl (find?_refill_ne hother _)
    refine ⟨f, _, List.getElem?_set_self (List.getElem?_eq_some_iff.mp hi).1, ?_, hfile⟩
    -- The file was given a text, so its calls were stripped and no fault showed.
    rcases f.finishUnder_cases (c.faults i) (f.decide o .inPlace (t'.readText f.path)) with
      hsame | ⟨hnone, _⟩
    · rw [hsame] at hl ⊢
      rcases f.result_inPlace_stripped o (t'.readText f.path) with ⟨hstripped, _⟩ | ⟨_, hnone⟩
      · exact hstripped
      · exact absurd (by rw [show (f.finish _).1 = none from hnone, refill_none]) hl
    · exact absurd (by rw [hnone, refill_none]) hl

/-- A file that workers change in place is one that they were told to sweep, and has calls
stripped. -/
theorem stripped_of_run [Grammar] {t : FileTree} {o : SweepOptions} {fs : List SourceFile}
    {c : Crew} (h : c.Kept (SameShape t) o .inPlace fs) (schedule : List Nat) {l : Location}
    (hl : (c.run o .inPlace schedule).tree.find? l ≠ c.tree.find? l) :
    ∃ (i : Nat) (f : SourceFile) (r : FileReport),
      (c.run o .inPlace schedule).files[i]? = some (f, .done r) ∧ r.status = .stripped ∧
        t.fileOf? f.path = some l := by
  induction schedule generalizing c with
  | nil => exact absurd rfl hl
  | cons i schedule ih =>
    by_cases hfirst : (c.turn o .inPlace i).tree.find? l = c.tree.find? l
    · exact ih (h.turn (sameShape_writes (by simp) t o fs) i) (by rwa [hfirst])
    · obtain ⟨f, r, hdone, hstatus, hfile⟩ := stripped_of_turn h hfirst
      exact ⟨i, f, r, Crew.getElem?_run_of_done hdone schedule, hstatus, hfile⟩

theorem stripped_of_sweepTogether [Grammar] {t : FileTree} {o : SweepOptions} {m : Machine}
    {fs : List SourceFile} {l : Location}
    (h : (t.sweepTogether o .inPlace m fs).1.find? l ≠ t.find? l) :
    ∃ (i : Nat) (f : SourceFile) (r : FileReport), fs[i]? = some f ∧
      (t.sweepTogether o .inPlace m fs).2[i]? = some r ∧ r.status = .stripped ∧
      t.fileOf? f.path = some l := by
  obtain ⟨i, f, r, hi, hstatus, hfile⟩ :=
    stripped_of_run (Crew.kept_start (SameShape.refl t) m.faults)
      (m.turns ++ Crew.inOrder fs.length) h
  have hf := getElem?_of_crewAfter hi
  exact ⟨i, f, r, hf, getElem?_sweepTogether_iff.mpr ⟨f, hf, hi⟩, hstatus, hfile⟩

/-! ## The way to an output directory -/

theorem prefix_resolveFrom (t : FileTree) {l : Location} {cs : List Component}
    (h : ∀ c ∈ cs, c ≠ .up ∧ c ≠ .root) : l <+: t.resolveFrom l cs := by
  induction cs generalizing l with
  | nil => exact List.prefix_refl l
  | cons c cs ih =>
    obtain ⟨hc, hcs⟩ := List.forall_mem_cons.mp h
    cases c with
    | root => exact absurd rfl hc.2
    | here => exact ih hcs
    | up => exact absurd rfl hc.1
    | name n => exact (List.prefix_append l [n]).trans (ih hcs)

/-- On a path that never goes up, the ones above it lead to places above its own. -/
theorem prefix_resolve_of_ancestor {t : FileTree} {p q : Path} (hq : q ∈ p.ancestors)
    (hp : p.goesUp = false) {l : Location} {e : Entry} (h : t.locate q = .ok (l, e)) :
    l <+: t.resolve p := by
  obtain ⟨rest, hrest⟩ := Path.components_prefix_of_mem_climb hq
  rw [resolve, ← hrest, resolveFrom_append]
  rw [← resolve, resolve_of_locate h]
  apply prefix_resolveFrom
  intro c hc
  have hmem : c ∈ p.components := hrest ▸ List.mem_append_right _ hc
  constructor
  · rintro rfl
    simp [Path.goesUp, hmem] at hp
  · rintro rfl
    -- The root opens a path, so it is in the rest only if nothing was before it.
    rcases hfront : q.components with _ | ⟨d, ds⟩
    · have habsolute := Path.isAbsolute_of_mem_climb hq (Path.isAbsolute_of_root_mem hmem)
      rw [Path.isAbsolute_iff, hfront] at habsolute
      simp at habsolute
    · apply p.root_not_mem_tail
      rw [← hrest, hfront]
      exact List.mem_append_right ds hc

/-! ## Runs -/

/-- The options that a command line comes to. -/
def optionsFor (t : FileTree) (a : Arguments) : Except String SweepOptions :=
  sweepOptions (t.workspace a.discovery a.output).loaded.settings a

/-- The files that a command line leads to. -/
def filesFor (t : FileTree) (a : Arguments) : List SourceFile :=
  t.sourceFiles (t.workspace a.discovery a.output).discovery
    (t.workspace a.discovery a.output).roots

/-- What can become of the tree: it stays as it is, or there are options and files, and the output
directory is made and the files are swept unless that failed. -/
theorem tree_runSweep_cases [Grammar] (t : FileTree) (a : Arguments) (m : Machine) :
    (t.runSweep a m).tree = t ∨
      ∃ o, t.optionsFor a = .ok o ∧ t.filesFor a ≠ [] ∧
        ((t.runSweep a m).tree = (t.prepareOutput (.ofArgs a.strip)).1 ∨
          (t.runSweep a m).tree = ((t.prepareOutput (.ofArgs a.strip)).1.sweepTogether o
            (.ofArgs a.strip) m (t.filesFor a)).1) := by
  have hloaded : (t.workspace a.discovery a.output).loaded =
      (t.workspace a.discovery a.output m.workers).loaded := rfl
  have hfiles : t.filesFor a =
      t.sourceFiles (t.workspace a.discovery a.output m.workers).discovery
        (t.workspace a.discovery a.output m.workers).roots := rfl
  rw [optionsFor, hloaded, hfiles]
  unfold runSweep
  generalize t.workspace a.discovery a.output m.workers = w
  generalize WriteMode.ofArgs a.strip = mode
  rcases ho : sweepOptions w.loaded.settings a with message | o
  · exact Or.inl (by simp only [ho])
  · simp only [ho]
    by_cases hone : (decide (mode = .stdout) &&
        decide ((t.sourceFiles w.discovery w.roots).length ≠ 1)) = true
    · rw [if_pos hone]
      exact Or.inl rfl
    · rw [if_neg hone]
      by_cases hfiles : (t.sourceFiles w.discovery w.roots).isEmpty = true
      · rw [if_pos hfiles]
        exact Or.inl rfl
      · rw [if_neg hfiles]
        refine Or.inr ⟨o, rfl, by simpa using hfiles, ?_⟩
        rcases t.prepareOutput mode with ⟨made, e | _⟩
        · exact Or.inl rfl
        · exact Or.inr rfl

theorem tree_runScan [Grammar] (t : FileTree) (a : ScanArgs) (m : Machine) :
    (t.runScan a m).tree = t := by
  unfold runScan
  simp only
  split <;> rfl

theorem tree_run_of_stop [Grammar] {t : FileTree} {args : List String} {stop : Stop}
    (h : Arguments.parse args = .error stop) (m : Machine) : (t.run args m).tree = t := by
  rw [run, h]
  cases stop <;> rfl

theorem tree_run_of_scan [Grammar] {t : FileTree} {args : List String} {a : Arguments}
    (h : Arguments.parse args = .ok a) (hscan : a.scan.isSome = true) (m : Machine) :
    (t.run args m).tree = t := by
  obtain ⟨s, hs⟩ := Option.isSome_iff_exists.mp hscan
  rw [run, h]
  simp only [hs]
  exact t.tree_runScan s m

theorem run_of_sweep [Grammar] {t : FileTree} {args : List String} {a : Arguments}
    (h : Arguments.parse args = .ok a) (hscan : a.scan = none) (m : Machine) :
    t.run args m = t.runSweep a m := by
  rw [run, h]
  simp only [hscan]

/-- A run that writes nothing, has no options or finds no file leaves the tree as it is. -/
theorem tree_run_of_nothing [Grammar] {t : FileTree} {args : List String} {a : Arguments}
    (h : Arguments.parse args = .ok a)
    (hnothing : (WriteMode.ofArgs a.strip).WritesNothing ∨
      (∃ e, t.optionsFor a = .error e) ∨ t.filesFor a = []) (m : Machine) :
    (t.run args m).tree = t := by
  cases hscan : a.scan with
  | some s => exact tree_run_of_scan h (by simp [hscan]) m
  | none =>
    rw [run_of_sweep h hscan]
    rcases t.tree_runSweep_cases a m with hsame | ⟨o, ho, hfiles, hwrites⟩
    · exact hsame
    · rcases hnothing with hmode | ⟨e, he⟩ | hnone
      · have hprepare : (t.prepareOutput (.ofArgs a.strip)).1 = t := by
          unfold prepareOutput
          split
          · rename_i d hd
            exact absurd hd (hmode.2 d)
          · rfl
        rw [hprepare, sweepTogether_of_writesNothing hmode] at hwrites
        exact hwrites.elim id id
      · simp [he] at ho
      · exact absurd hnone hfiles

theorem tree_runSweep_inPlace [Grammar] {t : FileTree} {a : Arguments} {o : SweepOptions}
    (hmode : WriteMode.ofArgs a.strip = .inPlace) (ho : t.optionsFor a = .ok o) (m : Machine) :
    (t.runSweep a m).tree = (t.sweepTogether o .inPlace m (t.filesFor a)).1 := by
  rw [tree_runSweep m hmode (by simp) ho rfl rfl]
  split
  · rename_i hnone
    rw [filesFor, List.isEmpty_iff.mp hnone, sweepTogether_nil]
  · rfl

/-- A run into an output directory makes directories on the way there, and else it changes only
what lies inside. -/
theorem WellFormed.tree_runSweep_outDir [Grammar] {t : FileTree} (hw : t.WellFormed) {a : Arguments}
    {dir : Path} (hmode : WriteMode.ofArgs a.strip = .outDir dir) (m : Machine) :
    ∃ made, MadeAt dir.ancestors t made ∧ ChangedIn dir made (t.runSweep a m).tree := by
  rcases t.tree_runSweep_cases a m with hsame | ⟨o, _, _, hwrites⟩
  · rw [hsame]
    exact ⟨t, MadeAt.refl _ t, ChangedIn.refl dir t⟩
  · have hmade := t.madeAt_makeDirectories dir
    rw [hmode, prepareOutput] at hwrites
    refine ⟨_, hmade, ?_⟩
    rcases hwrites with hfailed | hswept
    · rw [hfailed]
      exact ChangedIn.refl dir _
    · rw [hswept]
      exact (Crew.filling_start hmade.toGrown (hmade.wellFormed hw)
        (fun f hf => hw.exists_goesBy hf) m.faults).changedIn_run _

end FileTree

/-! ## The law -/

/-- What a command line may touch, on any machine. A scan, a dry run, a check and a run that prints
its result leave the tree as it is, and so does a run that stops before it sweeps. A run in place
makes and deletes nothing, and a file that holds something else after it has a report that says
stripped. A run into an output directory makes directories where its path and those above it as
they are written lead: above the output directory, unless the path goes up, when they may stand
elsewhere. Whatever else it changes lies inside. -/
theorem a_run_leaves_the_rest_of_the_tree_alone [Grammar] (t : FileTree) (hw : t.WellFormed)
    (args : List String) (m : Machine) :
    (∀ stop, Arguments.parse args = .error stop → (t.run args m).tree = t) ∧
    ∀ a, Arguments.parse args = .ok a →
      (a.scan.isSome = true ∨ a.strip.dryRun = true ∨ a.strip.check = true ∨
        a.strip.stdout = true → (t.run args m).tree = t) ∧
      ((∃ e, t.optionsFor a = .error e) ∨ t.filesFor a = [] → (t.run args m).tree = t) ∧
      (a.scan = none → WriteMode.ofArgs a.strip = .inPlace → ∀ o, t.optionsFor a = .ok o →
        ∃ reports, t.sweepTogether o .inPlace m (t.filesFor a) = ((t.run args m).tree, reports) ∧
          FileTree.SameShape t (t.run args m).tree ∧
          ∀ l, (t.run args m).tree.find? l ≠ t.find? l →
            ∃ (i : Nat) (f : SourceFile) (r : FileReport), (t.filesFor a)[i]? = some f ∧
              reports[i]? = some r ∧ r.status = .stripped ∧ t.fileOf? f.path = some l) ∧
      (∀ dir, a.strip.outDir = some dir → ∀ l, (t.run args m).tree.find? l ≠ t.find? l →
        (t.find? l = none ∧ (∃ q ∈ (Path.ofText dir).ancestors,
            (t.run args m).tree.locate q = .ok (l, .directory)) ∧
          ((Path.ofText dir).goesUp = false → l <+: (t.run args m).tree.resolve (.ofText dir))) ∨
        ∃ k, (t.run args m).tree.locate (.ofText dir) = .ok (k, .directory) ∧
          k <+: l ∧ l ≠ k) := by
  refine ⟨fun stop h => FileTree.tree_run_of_stop h m, ?_⟩
  intro a h
  refine ⟨?_, ?_, ?_, ?_⟩
  · rintro (hscan | hnothing)
    · exact FileTree.tree_run_of_scan h hscan m
    · refine FileTree.tree_run_of_nothing h ?_ m
      exact Or.inl (WriteMode.writesNothing_ofArgs (Arguments.outDir_of_parse h hnothing) hnothing)
  · intro hstops
    exact FileTree.tree_run_of_nothing h (Or.inr hstops) m
  · intro hscan hmode o ho
    rw [FileTree.run_of_sweep h hscan, FileTree.tree_runSweep_inPlace hmode ho]
    have hnowhere : ∀ d, WriteMode.inPlace ≠ .outDir d := by simp
    exact ⟨_, rfl, (FileTree.kept_sameShape hnowhere t o (t.filesFor a) m.faults _).tree,
      fun l hl => FileTree.stripped_of_sweepTogether hl⟩
  · intro dir hdir l hl
    cases hscan : a.scan with
    | some s => exact absurd (by rw [FileTree.tree_run_of_scan h (by simp [hscan])]) hl
    | none =>
      have hmode : WriteMode.ofArgs a.strip = .outDir (.ofText dir) := by
        simp only [WriteMode.ofArgs, hdir]
      rw [FileTree.run_of_sweep h hscan] at hl ⊢
      obtain ⟨made, hmade, hafter⟩ := hw.tree_runSweep_outDir hmode m
      by_cases hfirst : made.find? l = t.find? l
      · exact Or.inr (hafter.inside l (by rwa [hfirst]))
      · obtain ⟨hnone, q, hq, hlocate⟩ := hmade.added l hfirst
        have hlocate' := hafter.grown.locate_directory hlocate
        exact Or.inl ⟨hnone, ⟨q, hq, hlocate'⟩,
          fun hup => FileTree.prefix_resolve_of_ancestor hq hup hlocate'⟩

/-- A working directory with one script. -/
def workingScript : FileTree :=
  ⟨["w"], [(["w"], .directory), (["w", "a.js"], .file "console.log(1)".toUTF8)]⟩

/-- The result of a script in a directory that was not there, and the same script in a dry run. -/
theorem a_result_stays_in_a_new_directory :
    workingScript.WellFormed ∧
      (workingScript.run ["--out-dir", "made/out"]).tree.find? ["w", "made", "out", "a.js"] =
        some (.file "null /* console.log(1) */".toUTF8) ∧
      (∃ k, (workingScript.run ["--out-dir", "made/out"]).tree.locate (.ofText "made/out") =
        .ok (k, .directory) ∧ k <+: ["w", "made", "out", "a.js"] ∧
        ["w", "made", "out", "a.js"] ≠ k) ∧
      (workingScript.run ["--dry-run"]).tree = workingScript := by
  have hw : workingScript.WellFormed := by decide +kernel
  have hresult : (workingScript.run ["--out-dir", "made/out"]).tree.find?
      ["w", "made", "out", "a.js"] = some (.file "null /* console.log(1) */".toUTF8) := by
    decide +kernel
  refine ⟨hw, hresult, ?_, ?_⟩
  · obtain ⟨a, ha, hdir⟩ : ∃ a, Arguments.parse ["--out-dir", "made/out"] = .ok a ∧
        a.strip.outDir = some "made/out" := by decide +kernel
    have hnew : workingScript.find? ["w", "made", "out", "a.js"] = none := by decide +kernel
    rcases ((a_run_leaves_the_rest_of_the_tree_alone workingScript hw _ {}).2 a ha).2.2.2 _ hdir
      ["w", "made", "out", "a.js"] (by simp [hresult, hnew]) with ⟨_, ⟨q, _, hq⟩, _⟩ | hinside
    · have hfile := (FileTree.locate_eq_ok_iff.mp hq).2.2
      simp [hresult] at hfile
    · exact hinside
  · obtain ⟨a, ha, hdry⟩ : ∃ a, Arguments.parse ["--dry-run"] = .ok a ∧ a.strip.dryRun = true := by
      decide +kernel
    exact ((a_run_leaves_the_rest_of_the_tree_alone workingScript hw _ {}).2 a ha).1
      (Or.inr (Or.inl hdry))

end LogSweep
