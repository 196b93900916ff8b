-- Dry runs. What a dry run says about a file is what a run in place says about it, with one word
-- for another, so the totals are the same. And where calls go into comments, the files that would
-- change are the files that do.
import LogSweep.Proofs.Resweep
import LogSweep.Proofs.Schedules

namespace LogSweep

/-! ## What is foretold -/

/-- What a dry run says where a run in place says this. -/
def FileStatus.foretold : FileStatus → FileStatus
  | .stripped => .wouldStrip
  | s => s

def FileReport.foretold (r : FileReport) : FileReport := { r with status := r.status.foretold }

@[simp] theorem FileStatus.isFailure_foretold (s : FileStatus) :
    s.foretold.isFailure = s.isFailure := by
  cases s <;> rfl

theorem FileStatus.foretold_eq_wouldStrip_iff {s : FileStatus} (h : s ≠ .wouldStrip) :
    s.foretold = .wouldStrip ↔ s = .stripped := by
  cases s <;> simp_all [foretold]

namespace SourceFile

theorem decide_dry [Grammar] (f : SourceFile) {o : SweepOptions} {mode : WriteMode}
    (hdry : mode.isDry = true) {source : String} {swept : Outcome}
    (h : sweep source o = .ok swept) :
    f.decide o mode (.ok source) =
      .report (f.report swept.replaced.length
        (if swept.changed then .wouldStrip else .unchanged)) := by
  unfold SourceFile.decide
  cases mode <;> simp_all [WriteMode.isDry]

/-- In a dry run there is nothing left to do about a file but to report it. -/
theorem exists_report_of_dry [Grammar] (f : SourceFile) (o : SweepOptions) {mode : WriteMode}
    (hdry : mode.isDry = true) (content : Except FileError String) :
    ∃ r, f.decide o mode content = .report r := by
  cases content with
  | error e => exact ⟨_, f.decide_of_unread o mode e⟩
  | ok source =>
    cases hsweep : sweep source o with
    | error e => exact ⟨_, f.decide_of_unswept mode hsweep⟩
    | ok swept => exact ⟨_, f.decide_dry hdry hsweep⟩

/-- A dry run foretells what becomes of a file in place, unless it cannot be written. -/
theorem result_dry [Grammar] (f : SourceFile) (o : SweepOptions) {mode : WriteMode}
    (hdry : mode.isDry = true) (content : Except FileError String)
    (hwrites : ∀ e, (f.result o .inPlace content).2.status ≠ .writeFailed e) :
    (f.result o mode content).2 = (f.result o .inPlace content).2.foretold := by
  rcases f.result_inPlace_cases o content with ⟨e, rfl, hplace⟩ | ⟨source, rfl, hsource⟩
  · rw [hplace]
    rfl
  · rcases hsource with ⟨e, hsweep, hplace⟩ | ⟨swept, hsweep, hswept⟩
    · rw [hplace, result, decide_of_unswept f mode hsweep]
      rfl
    · have hresult : (f.result o mode (.ok source)).2 =
          f.report swept.replaced.length (if swept.changed then .wouldStrip else .unchanged) := by
        rw [result, f.decide_dry hdry hsweep]
        rfl
      rcases hswept with ⟨hnone, hplace⟩ | ⟨hsome, hplace | ⟨e, hplace⟩⟩
      · rw [hresult, hplace]
        simp [Outcome.changed, hnone, FileReport.foretold, FileStatus.foretold, report]
      · rw [hresult, hplace]
        simp [Outcome.changed, hsome, FileReport.foretold, FileStatus.foretold, report]
      · exact absurd (by rw [hplace]; rfl) (hwrites e)

/-- A file in place counts as changed exactly when it was stripped. -/
theorem result_inPlace_status [Grammar] (f : SourceFile) (o : SweepOptions)
    (content : Except FileError String) :
    ((f.result o .inPlace content).2.status = .stripped ↔
        (f.result o .inPlace content).2.status.isFailure = false ∧
          0 < (f.result o .inPlace content).2.calls) ∧
      (f.result o .inPlace content).2.status ≠ .wouldStrip := by
  rcases f.result_inPlace_cases o content with ⟨e, _, hplace⟩ | ⟨source, _, hsource⟩
  · simp [hplace, report, FileStatus.isFailure]
  · rcases hsource with ⟨e, _, hplace⟩ | ⟨swept, _, hswept⟩
    · simp [hplace, report, FileStatus.isFailure]
    · rcases hswept with ⟨_, hplace⟩ | ⟨hsome, hplace | ⟨e, hplace⟩⟩
      · simp [hplace, report, FileStatus.isFailure]
      · simpa [hplace, report, FileStatus.isFailure, List.length_pos_iff] using hsome
      · simp [hplace, report, FileStatus.isFailure]

end SourceFile

/-! ## Totals -/

namespace Summary

theorem count_foretold (s : Summary) (r : FileReport) : s.count r.foretold = s.count r := by
  have hfails : r.foretold.status.isFailure = r.status.isFailure := r.status.isFailure_foretold
  have hcalls : r.foretold.calls = r.calls := rfl
  unfold count
  rw [hfails, hcalls]

theorem ofReports_foretold (rs : List FileReport) :
    ofReports (rs.map FileReport.foretold) = ofReports rs := by
  simp only [ofReports, List.length_map, List.foldl_map, count_foretold]

theorem foldl_count (rs : List FileReport) (s : Summary) :
    (rs.foldl count s).failed = s.failed + rs.countP (fun r => r.status.isFailure) ∧
      (rs.foldl count s).changed =
        s.changed + rs.countP (fun r => !r.status.isFailure && decide (0 < r.calls)) := by
  induction rs generalizing s with
  | nil => simp
  | cons r rs ih =>
    obtain ⟨hfailed, hchanged⟩ := ih (s.count r)
    rw [List.foldl_cons, hfailed, hchanged, List.countP_cons, List.countP_cons]
    unfold count
    by_cases hfails : r.status.isFailure = true
    · simp [hfails]
      omega
    · by_cases hcalls : 0 < r.calls
      · simp [hfails, hcalls]
        omega
      · simp [hfails, hcalls]

/-- A check ends with 1 exactly when a file failed or has calls to replace. -/
theorem exitCode_check_eq_one_iff (rs : List FileReport) :
    (ofReports rs).exitCode .check = 1 ↔
      (∃ r ∈ rs, r.status.isFailure = true) ∨
        ∃ r ∈ rs, r.status.isFailure = false ∧ 0 < r.calls := by
  obtain ⟨hfailed, hchanged⟩ := foldl_count rs ⟨rs.length, 0, 0, 0⟩
  rw [← ofReports] at hfailed hchanged
  rw [Nat.zero_add] at hfailed hchanged
  have hcode : (ofReports rs).exitCode .check = 1 ↔
      0 < (ofReports rs).failed ∨ 0 < (ofReports rs).changed := by
    unfold exitCode
    split <;> simp_all
  rw [hcode, hfailed, hchanged, List.countP_pos_iff, List.countP_pos_iff]
  simp only [Bool.and_eq_true, Bool.not_eq_true', decide_eq_true_eq]

end Summary

/-! ## Texts that come to differ -/

theorem length_nullComment (call : String) :
    (Strategy.nullComment.apply call).length = call.length + 11 := by
  simp only [Strategy.apply, String.length_append]
  have h1 : "null /* ".length = 8 := rfl
  have h2 : " */".length = 3 := rfl
  omega

/-- Where calls go into comments, a text stays the same only if no call is replaced. -/
theorem output_ne_of_replaced [Grammar] {source : String} {o : SweepOptions} {swept : Outcome}
    (h : sweep source o = .ok swept) (ho : o.effective = .comment ∨ o.effective = .nullComment)
    (hsome : swept.replaced ≠ []) : swept.output ≠ source := by
  intro hsame
  unfold sweep at h
  rcases ho with ho | ho
  · rw [ho] at h
    exact hsome ((output_eq_iff h length_comment).mp hsame)
  · rw [ho] at h
    exact hsome ((output_eq_iff h length_nullComment).mp hsame)

namespace FileTree

theorem toUTF8_injective {text text' : String} (h : text.toUTF8 = text'.toUTF8) : text = text' :=
  Option.some.inj ((fromUTF8?_eq_some_iff.mpr rfl).symm.trans (fromUTF8?_eq_some_iff.mpr h))

section Bytes

variable [Grammar] {t after : FileTree} {o : SweepOptions} {mode : WriteMode} {fs : List SourceFile}
  {f : SourceFile}

theorem EachSwept.readBytes_of_none (h : t.EachSwept o mode fs after) (hf : f ∈ fs)
    (hnone : (f.result o mode (t.readText f.path)).1 = none) :
    after.readBytes f.path = t.readBytes f.path := by
  apply h.shape.readBytes_eq
  intro l hl
  rw [h.swept f hf l hl, hnone]
  rfl

theorem EachSwept.readBytes_of_some (h : t.EachSwept o mode fs after) (hf : f ∈ fs) {l : Location}
    (hl : t.fileOf? f.path = some l) {text : String}
    (hsome : (f.result o mode (t.readText f.path)).1 = some text) :
    after.readBytes f.path = .ok text.toUTF8 := by
  have hfile := h.shape.fileOf?_eq f.path
  rw [hl] at hfile
  obtain ⟨c, hc⟩ := fileOf?_eq_some_iff.mp hfile
  have hfind : after.find? l = some (.file c) := (locate_eq_ok_iff.mp hc).2.2
  rw [h.swept f hf l hl, hsome, find?_refill_self (ne_nil_of_fileOf? hl)] at hfind
  obtain rfl : text.toUTF8 = c := by simpa using hfind
  rw [readBytes, hc]

/-- Where calls go into comments, a file is left with other bytes exactly when it is stripped. -/
theorem EachSwept.stripped_iff (h : t.EachSwept o .inPlace fs after) (hf : f ∈ fs)
    (ho : o.effective = .comment ∨ o.effective = .nullComment) :
    (f.result o .inPlace (t.readText f.path)).2.status = .stripped ↔
      after.readBytes f.path ≠ t.readBytes f.path := by
  rcases f.result_inPlace_stripped o (t.readText f.path) with
    ⟨hstripped, source, swept, hread, hsweep, hsome, hplace⟩ | ⟨hother, hplace⟩
  · obtain ⟨l, hl⟩ := exists_locate_of_readText hread
    have hafter := h.readBytes_of_some hf (fileOf?_eq_some_iff.mpr ⟨_, hl⟩) hplace
    have hbefore : t.readBytes f.path = .ok source.toUTF8 := by rw [readBytes, hl]
    have hbytes : swept.output.toUTF8 ≠ source.toUTF8 :=
      fun heq => output_ne_of_replaced hsweep ho hsome (toUTF8_injective heq)
    simpa [hstripped, hafter, hbefore] using hbytes
  · simp [hother, h.readBytes_of_none hf hplace]

end Bytes

end FileTree

/-- Files that are apart, swept dry: on any machine their reports are those that each would have
alone, since a fault does not show where nothing is to be written. -/
theorem FileTree.reports_of_dry [Grammar] {t : FileTree} {fs : List SourceFile} (hfs : t.Apart fs)
    {mode : WriteMode} (hdry : mode.isDry = true) (o : SweepOptions) (m : Machine) :
    (t.sweepTogether o mode m fs).2 =
      fs.map (fun f => (f.result o mode (t.readText f.path)).2) := by
  have hdir : ∀ d, mode ≠ .outDir d := by
    rintro d rfl
    simp [WriteMode.isDry] at hdry
  refine (sweepTogether_apart hdir hfs ?_).1
  intro i f _
  obtain ⟨r, hr⟩ := f.exists_report_of_dry o hdry (t.readText f.path)
  rw [stepFor, hr, SourceFile.finishUnder_report]

/-! ## The law -/

/-- No two paths lead to the same file, and of a run in place all writes succeed. Then a dry run or
a check reports what the run in place does, with one word for another, whatever machines they run
on: the same files, counts and failures, so the same totals. A check ends with 1 exactly when a
file fails or the run in place strips one. And where calls go into comments, the files that would
be stripped are those that the run in place leaves with other bytes. -/
theorem a_dry_run_foretells_a_run_in_place [Grammar] (t : FileTree) (o : SweepOptions)
    (m m' : Machine) (fs : List SourceFile) (hfs : t.Apart fs) (mode : WriteMode)
    (hdry : mode.isDry = true)
    (hwrites : ∀ r ∈ (t.sweepTogether o .inPlace m fs).2, ∀ e, r.status ≠ .writeFailed e) :
    (t.sweepTogether o mode m' fs).2 =
      (t.sweepTogether o .inPlace m fs).2.map FileReport.foretold ∧
    (∀ r ∈ (t.sweepTogether o .inPlace m fs).2, r.status ≠ .wouldStrip) ∧
    Summary.ofReports (t.sweepTogether o mode m' fs).2 =
      Summary.ofReports (t.sweepTogether o .inPlace m fs).2 ∧
    ((Summary.ofReports (t.sweepTogether o .check m' fs).2).exitCode .check = 1 ↔
      (∃ r ∈ (t.sweepTogether o .check m' fs).2, r.status.isFailure = true) ∨
        ∃ r ∈ (t.sweepTogether o .inPlace m fs).2, r.status = .stripped) ∧
    (o.effective = .comment ∨ o.effective = .nullComment →
      ∀ (i : Nat) (f : SourceFile) (r : FileReport), fs[i]? = some f →
        (t.sweepTogether o mode m' fs).2[i]? = some r →
        (r.status = .wouldStrip ↔
          (t.sweepTogether o .inPlace m fs).1.readBytes f.path ≠ t.readBytes f.path)) := by
  have hnowhere : ∀ d, WriteMode.inPlace ≠ .outDir d := by simp
  obtain ⟨hplace, heach⟩ := FileTree.sweepTogether_apart hnowhere hfs
    (fun _ _ hf => FileTree.finishUnder_of_writes hnowhere hfs hwrites hf)
  have hforetold : ∀ dry : WriteMode, dry.isDry = true →
      (t.sweepTogether o dry m' fs).2 =
        (t.sweepTogether o .inPlace m fs).2.map FileReport.foretold := by
    intro dry hisDry
    rw [FileTree.reports_of_dry hfs hisDry, hplace, List.map_map]
    apply List.map_congr_left
    intro f hf
    apply f.result_dry o hisDry
    apply hwrites
    rw [hplace]
    exact List.mem_map_of_mem hf
  have hstatus : ∀ r ∈ (t.sweepTogether o .inPlace m fs).2,
      (r.status = .stripped ↔ r.status.isFailure = false ∧ 0 < r.calls) ∧
        r.status ≠ .wouldStrip := by
    rw [hplace]
    intro r hr
    obtain ⟨f, _, rfl⟩ := List.mem_map.mp hr
    exact f.result_inPlace_status o _
  refine ⟨hforetold mode hdry, fun r hr => (hstatus r hr).2, ?_, ?_, ?_⟩
  · rw [hforetold mode hdry, Summary.ofReports_foretold]
  · rw [hforetold .check rfl, Summary.ofReports_foretold, Summary.exitCode_check_eq_one_iff]
    apply or_congr
    · simp [FileReport.foretold]
    · apply exists_congr
      intro r
      exact and_congr_right (fun hr => (hstatus r hr).1.symm)
  · intro ho i f r hi hr
    rw [hforetold mode hdry, hplace, List.map_map, List.getElem?_map, hi, Option.map_some,
      Option.some.injEq] at hr
    rw [← hr, ← heach.stripped_iff (List.mem_of_getElem? hi) ho]
    exact FileStatus.foretold_eq_wouldStrip_iff (f.result_inPlace_status o _).2

/-- A script with a log, and bytes that are no text. -/
def logBesideBytes : FileTree :=
  ⟨["w"], [(["w"], .directory), (["w", "a.js"], .file "console.log(1);".toUTF8),
    (["w", "b.js"], .file ⟨#[255]⟩)]⟩

/-- The log goes with its semicolon, as foretold by workers who could not have written it. -/
theorem a_log_beside_bytes_would_be_stripped :
    logBesideBytes.Apart [⟨⟨["a.js"]⟩, ⟨["."]⟩⟩, ⟨⟨["b.js"]⟩, ⟨["."]⟩⟩] ∧
      (logBesideBytes.sweepTogether ⟨.standard, none, true⟩ .dryRun
        ⟨2, [1, 0, 0], fun _ => some (.other "Permission denied (os error 13)")⟩
        [⟨⟨["a.js"]⟩, ⟨["."]⟩⟩, ⟨⟨["b.js"]⟩, ⟨["."]⟩⟩]).2 =
        [⟨"a.js", 1, .wouldStrip, none⟩, ⟨"b.js", 0, .readFailed .notText, none⟩] ∧
      (logBesideBytes.sweepTogether ⟨.standard, none, true⟩ .inPlace ⟨2, [1, 0], fun _ => none⟩
        [⟨⟨["a.js"]⟩, ⟨["."]⟩⟩, ⟨⟨["b.js"]⟩, ⟨["."]⟩⟩]).1.readBytes ⟨["a.js"]⟩ ≠
        logBesideBytes.readBytes ⟨["a.js"]⟩ := by
  have hfs : logBesideBytes.Apart [⟨⟨["a.js"]⟩, ⟨["."]⟩⟩, ⟨⟨["b.js"]⟩, ⟨["."]⟩⟩] := by
    decide +kernel
  have hplace : (logBesideBytes.sweepTogether ⟨.standard, none, true⟩ .inPlace
      ⟨2, [1, 0], fun _ => none⟩ [⟨⟨["a.js"]⟩, ⟨["."]⟩⟩, ⟨⟨["b.js"]⟩, ⟨["."]⟩⟩]).2 =
      [⟨"a.js", 1, .stripped, none⟩, ⟨"b.js", 0, .readFailed .notText, none⟩] := by
    decide +kernel
  obtain ⟨hreports, _, _, _, hbytes⟩ := a_dry_run_foretells_a_run_in_place logBesideBytes
    ⟨.standard, none, true⟩ ⟨2, [1, 0], fun _ => none⟩
    ⟨2, [1, 0, 0], fun _ => some (.other "Permission denied (os error 13)")⟩ _ hfs .dryRun rfl
    (by simp [hplace])
  rw [hplace] at hreports
  exact ⟨hfs, hreports, (hbytes (Or.inl rfl) 0 _ _ rfl (by rw [hreports]; rfl)).mp rfl⟩

end LogSweep
