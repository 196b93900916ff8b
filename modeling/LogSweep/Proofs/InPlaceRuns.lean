-- Runs in place. Each root that leads to a file sweeps it again. A sweep takes up the outcome of
-- one that was written before it was read, and is written over one that was not. So what a file held
-- before the run is swept at least once, and at most once for each root.
import Mathlib.Logic.Function.Iterate
import LogSweep.Proofs.Crews

namespace LogSweep

namespace FileTree

/-! ## One file after another -/

theorem Grown.place? {t t' : FileTree} (h : Grown t t') {p : Path} (hp : t.LeadsToFile p) :
    t'.place? p = t.place? p := by
  obtain ⟨⟨l, c, hl⟩, _⟩ := hp
  obtain ⟨c', hl'⟩ := h.locate_file hl
  rw [place?_of_locate hl, place?_of_locate hl']

/-- The files that are still to come can be swept as before. -/
theorem leadsToFile_rest [Grammar] {t : FileTree} {f : SourceFile} {fs : List SourceFile}
    (hfs : ∀ g ∈ f :: fs, t.LeadsToFile g.path) (o : SweepOptions) :
    ∀ g ∈ fs, (t.sweepFile o .inPlace f).1.LeadsToFile g.path :=
  fun g hg => (grown_sweepFile_inPlace (hfs f List.mem_cons_self) o).leadsToFile
    (hfs g (List.mem_cons_of_mem f hg))

/-- Files swept in place one after another: what a file holds is settled once for each time that
it is listed. -/
theorem fileAt?_sweepFiles_inPlace [Grammar] {t : FileTree} {fs : List SourceFile}
    (hfs : ∀ f ∈ fs, t.LeadsToFile f.path) (o : SweepOptions) {k : Location} {c : ByteArray}
    (hk : t.fileAt? k = some c) :
    (t.sweepFiles o .inPlace fs).1.fileAt? k =
      some (o.settle^[fs.countP (fun f => t.place? f.path = some k)] c) := by
  induction fs generalizing t c with
  | nil => simpa [sweepFiles] using hk
  | cons f fs ih =>
    have hf := hfs f List.mem_cons_self
    have hgrown := grown_sweepFile_inPlace hf o
    -- The paths of the other files lead where they led before.
    have hcount : fs.countP (fun g => (t.sweepFile o .inPlace f).1.place? g.path = some k) =
        fs.countP (fun g => t.place? g.path = some k) :=
      List.countP_congr (fun g hg => by rw [hgrown.place? (hfs g (List.mem_cons_of_mem f hg))])
    rw [sweepFiles_cons, ih (leadsToFile_rest hfs o) (fileAt?_sweepFile_inPlace hf o hk), hcount,
      List.countP_cons]
    by_cases hplace : t.place? f.path = some k
    · simp [hplace]
    · simp [hplace]

theorem sweepFiles_inPlace_writes [Grammar] {t : FileTree} {fs : List SourceFile}
    (hfs : ∀ f ∈ fs, t.LeadsToFile f.path) (o : SweepOptions) :
    ∀ r ∈ (t.sweepFiles o .inPlace fs).2, ∀ e, r.status ≠ .writeFailed e := by
  induction fs generalizing t with
  | nil => simp [sweepFiles]
  | cons f fs ih =>
    have hf := hfs f List.mem_cons_self
    obtain ⟨l, c, hl⟩ := hf.1
    intro r hr
    rw [sweepFiles_cons, List.mem_cons] at hr
    rcases hr with rfl | hr
    · exact (sweepFile_inPlace hf hl o).2
    · exact ih (leadsToFile_rest hfs o) r hr

end FileTree

/-- One sweep and several come to the same where there can be only one, and where a second one
leaves everything as it is. -/
theorem SweepOptions.iterate_settle [Grammar] {o : SweepOptions} {c : ByteArray} {n m : Nat}
    (hn : 0 < n) (hle : n ≤ m) (honce : m = 1 ∨ o.settle (o.settle c) = o.settle c) :
    o.settle^[n] c = o.settle c := by
  obtain ⟨k, rfl⟩ : ∃ k, n = k + 1 := ⟨n - 1, by omega⟩
  rcases honce with hone | hstays
  · obtain rfl : k = 0 := by omega
    rfl
  · rw [Function.iterate_succ_apply, Function.iterate_fixed hstays]

/-! ## Side by side -/

def FileStatus.isWriteFailure : FileStatus → Bool
  | .writeFailed _ => true
  | _ => false

theorem FileStatus.isWriteFailure_eq_false_iff {s : FileStatus} :
    s.isWriteFailure = false ↔ ∀ e, s ≠ .writeFailed e := by
  cases s <;> simp [isWriteFailure]

/-- Whether a file is done and had no trouble being written. -/
def Stage.isSettled : Stage → Bool
  | .done r => !r.status.isWriteFailure
  | _ => false

namespace Crew

/-- How many of the files that are settled stand at a place. -/
def settledAt (t : FileTree) (c : Crew) (l : Location) : Nat :=
  c.files.countP (fun x => t.fileOf? x.1.path = some l && x.2.isSettled)

theorem countP_set_stage {t : FileTree} {c : Crew} {i : Nat} {f : SourceFile} {s : Stage}
    (h : c.files[i]? = some (f, s)) (hs : s.isSettled = false) (s' : Stage) (l : Location) :
    (c.files.set i (f, s')).countP (fun x => t.fileOf? x.1.path = some l && x.2.isSettled) =
      c.settledAt t l + if t.fileOf? f.path = some l && s'.isSettled then 1 else 0 := by
  obtain ⟨hlt, hi⟩ := List.getElem?_eq_some_iff.mp h
  rw [List.countP_set hlt, hi]
  simp [hs, settledAt]

/-- Each file of the tree holds what it held before the run, swept at least once if a file there is
settled, and at most once for each. What is left to do was decided from such a content. -/
structure Settling [Grammar] (t : FileTree) (o : SweepOptions) (fs : List SourceFile)
    (c : Crew) : Prop extends Kept (FileTree.SameShape t) o .inPlace fs c where
  holds : ∀ (l : Location) (x : ByteArray), t.fileAt? l = some x →
    ∃ n, c.tree.fileAt? l = some (o.settle^[n] x) ∧ n ≤ c.settledAt t l ∧
      (0 < c.settledAt t l → 0 < n)
  reads : ∀ (i : Nat) (f : SourceFile) (next : NextStep), c.files[i]? = some (f, .decided next) →
    ∀ (l : Location) (x : ByteArray), t.locate f.path = .ok (l, .file x) →
      ∃ t' n, FileTree.SameShape t t' ∧ t'.fileAt? l = some (o.settle^[n] x) ∧
        n ≤ c.settledAt t l ∧ next = f.decide o .inPlace (t'.readText f.path)

section Steps

variable [Grammar] {t : FileTree} {o : SweepOptions} {fs : List SourceFile} {c : Crew}

theorem settling_start (t : FileTree) (o : SweepOptions) (fs : List SourceFile)
    (faults : Nat → Option FileError) : (start t fs faults).Settling t o fs := by
  refine ⟨kept_start (FileTree.SameShape.refl t) faults, ?_, ?_⟩
  · intro l x hx
    refine ⟨0, hx, Nat.zero_le _, fun hpos => ?_⟩
    obtain ⟨y, hy, hsettled⟩ := List.countP_pos_iff.mp hpos
    obtain ⟨i, hi⟩ := List.mem_iff_getElem?.mp hy
    simp [(getElem?_start.mp hi).2, Stage.isSettled] at hsettled
  · intro i f next hi
    simp [getElem?_start] at hi

/-- Reading a file. -/
theorem Settling.read (h : c.Settling t o fs) {i : Nat} {f : SourceFile}
    (hi : c.files[i]? = some (f, .waiting)) (hkept : (c.turn o .inPlace i).Kept
      (FileTree.SameShape t) o .inPlace fs) : (c.turn o .inPlace i).Settling t o fs := by
  have hturn := turn_of_file hi o .inPlace
  have hlt := (List.getElem?_eq_some_iff.mp hi).1
  have hcount : ∀ l, (c.turn o .inPlace i).settledAt t l = c.settledAt t l := by
    intro l
    rw [settledAt, hturn, countP_set_stage hi rfl]
    simp [Stage.advance, Stage.isSettled]
  refine ⟨hkept, ?_, ?_⟩
  · intro l x hx
    rw [hcount, hturn]
    exact h.holds l x hx
  · intro j g next hj l x hl
    rw [hcount]
    by_cases hij : i = j
    · subst hij
      rw [getElem?_turn_self hi, Option.some.injEq, Prod.mk.injEq] at hj
      obtain ⟨rfl, hnext⟩ := hj
      obtain ⟨n, hn, hle, _⟩ := h.holds l x (FileTree.fileAt?_of_locate hl)
      exact ⟨c.tree, n, h.tree, hn, hle, (Stage.decided.inj hnext).symm⟩
    · rw [getElem?_turn_ne hij] at hj
      exact h.reads j g next hj l x hl

/-- What carrying out a decision does to its file: the write fails and the file is left alone, or
the bytes that were read are settled, in the file or as they were. -/
theorem Settling.perform_cases (h : c.Settling t o fs) {i : Nat} {f : SourceFile} {next : NextStep}
    (hi : c.files[i]? = some (f, .decided next)) {l : Location} {x : ByteArray}
    (hl : t.locate f.path = .ok (l, .file x)) (fault : Option FileError) :
    ((f.perform .inPlace fault c.tree next).1 = c.tree ∧
        (f.perform .inPlace fault c.tree next).2.status.isWriteFailure = true) ∨
      (f.perform .inPlace fault c.tree next).2.status.isWriteFailure = false ∧
        ∃ n, n ≤ c.settledAt t l ∧
          ((f.perform .inPlace fault c.tree next).1 =
              c.tree.put l (.file (o.settle^[n + 1] x)) ∨
            (f.perform .inPlace fault c.tree next).1 = c.tree ∧
              o.settle (o.settle^[n] x) = o.settle^[n] x) := by
  obtain ⟨t', n, hshape, hn, hle, rfl⟩ := h.reads i f next hi l x hl
  have hfile : t.fileOf? f.path = some l := FileTree.fileOf?_eq_some_iff.mpr ⟨x, hl⟩
  have hl' := hshape.grown.locate hl (FileTree.fileAt?_eq_some_iff.mp hn)
  rw [FileTree.perform_decide_eq (by simp) hshape h.tree, hfile]
  rcases FileTree.decide_settles hl' o with ⟨r, hdecide, hsettled, hr⟩ | ⟨text, r, hdecide, htext, hr⟩
  · rw [hdecide, SourceFile.finishUnder_report, SourceFile.finish, FileTree.refill_none]
    exact Or.inr ⟨FileStatus.isWriteFailure_eq_false_iff.mpr hr, n, hle, Or.inr ⟨rfl, hsettled⟩⟩
  · rw [hdecide]
    rcases f.finishUnder_cases fault (.write text r) with hsame | ⟨hnone, e, hfailed⟩
    · rw [hsame, SourceFile.finish]
      cases FileTree.refusal? f.path with
      | none =>
        refine Or.inr ⟨FileStatus.isWriteFailure_eq_false_iff.mpr hr, n, hle, Or.inl ?_⟩
        rw [Function.iterate_succ_apply', ← htext]
        rfl
      | some e => exact Or.inl ⟨rfl, rfl⟩
    · refine Or.inl ⟨by rw [hnone, FileTree.refill_none], ?_⟩
      rw [hfailed]
      rfl

/-- What the file holds then has been settled at least once if it counts as settled, and at most once
for each time that it counts. -/
theorem Settling.fileAt?_perform (h : c.Settling t o fs) {i : Nat} {f : SourceFile}
    {next : NextStep} (hi : c.files[i]? = some (f, .decided next)) {l : Location} {x : ByteArray}
    (hl : t.locate f.path = .ok (l, .file x)) (fault : Option FileError) :
    ∃ n, (f.perform .inPlace fault c.tree next).1.fileAt? l = some (o.settle^[n] x) ∧
      n ≤ c.settledAt t l +
        (if !(f.perform .inPlace fault c.tree next).2.status.isWriteFailure then 1 else 0) ∧
      (0 < c.settledAt t l +
        (if !(f.perform .inPlace fault c.tree next).2.status.isWriteFailure then 1 else 0) →
          0 < n) := by
  have hne : l ≠ [] := FileTree.ne_nil_of_fileOf? (FileTree.fileOf?_eq_some_iff.mpr ⟨x, hl⟩)
  obtain ⟨n, hn, hle, hpos⟩ := h.holds l x (FileTree.fileAt?_of_locate hl)
  rcases h.perform_cases hi hl fault with
    ⟨hsame, hfailed⟩ | ⟨hdone, a, ha, hput | ⟨hsame, hsettled⟩⟩
  · exact ⟨n, by rw [hsame, hn], by simpa [hfailed] using hle, by simpa [hfailed] using hpos⟩
  · refine ⟨a + 1, ?_, by simpa [hdone] using ha, by simp⟩
    rw [hput, FileTree.fileAt?_eq_some_iff, FileTree.find?_put_self _ hne]
  · -- Bytes that nothing settled yet are the ones that were read.
    rcases Nat.eq_zero_or_pos (c.settledAt t l) with hzero | hsome
    · obtain ⟨rfl, rfl⟩ : n = 0 ∧ a = 0 := by omega
      refine ⟨1, ?_, by simp [hdone], by simp⟩
      rw [hsame, hn]
      exact congrArg some hsettled.symm
    · exact ⟨n, by rw [hsame, hn], by omega, fun _ => hpos hsome⟩

/-- Carrying out what was decided about a file. -/
theorem Settling.carryOut (h : c.Settling t o fs) {i : Nat} {f : SourceFile} {next : NextStep}
    (hi : c.files[i]? = some (f, .decided next)) (hkept : (c.turn o .inPlace i).Kept
      (FileTree.SameShape t) o .inPlace fs) (hfile : (t.fileOf? f.path).isSome = true) :
    (c.turn o .inPlace i).Settling t o fs := by
  obtain ⟨l, hfl⟩ := Option.isSome_iff_exists.mp hfile
  obtain ⟨x, hl⟩ := FileTree.fileOf?_eq_some_iff.mp hfl
  have hturn := turn_of_file hi o .inPlace
  rw [Stage.advance] at hturn
  have hcount : ∀ k, (c.turn o .inPlace i).settledAt t k = c.settledAt t k + if l = k then
      (if !(f.perform .inPlace (c.faults i) c.tree next).2.status.isWriteFailure then 1 else 0)
        else 0 := by
    intro k
    rw [settledAt, hturn, countP_set_stage hi rfl, hfl]
    by_cases hlk : l = k <;> simp [hlk, Stage.isSettled]
  refine ⟨hkept, ?_, ?_⟩
  · intro k y hy
    by_cases hlk : l = k
    · subst hlk
      obtain rfl : x = y := Option.some.inj ((FileTree.fileAt?_of_locate hl).symm.trans hy)
      rw [hcount, if_pos rfl, hturn]
      exact h.fileAt?_perform hi hl (c.faults i)
    · have hother : (c.turn o .inPlace i).tree.find? k = c.tree.find? k := by
        rw [hturn]
        rcases h.perform_cases hi hl (c.faults i) with ⟨hsame, _⟩ | ⟨_, a, _, hput | ⟨hsame, _⟩⟩
        · rw [hsame]
        · rw [hput, FileTree.find?_put_ne _ (Ne.symm hlk)]
        · rw [hsame]
      rw [FileTree.fileAt?_of_find? hother, hcount, if_neg hlk]
      exact h.holds k y hy
  · intro j g next' hj k y hk
    by_cases hij : i = j
    · subst hij
      rw [getElem?_turn_self hi] at hj
      simp [Stage.advance] at hj
    · rw [getElem?_turn_ne hij] at hj
      obtain ⟨t', n, hshape, hn, hle, hnext⟩ := h.reads j g next' hj k y hk
      refine ⟨t', n, hshape, hn, ?_, hnext⟩
      rw [hcount]
      omega

theorem Settling.run (h : c.Settling t o fs)
    (hfs : ∀ f ∈ fs, (t.fileOf? f.path).isSome = true) (schedule : List Nat) :
    (c.run o .inPlace schedule).Settling t o fs := by
  induction schedule generalizing c with
  | nil => exact h
  | cons i schedule ih =>
    apply ih
    have hkept := h.toKept.turn (FileTree.sameShape_writes (by simp) t o fs) i
    rcases c.turn_cases o .inPlace i with hsame | ⟨f, hi, _⟩ | ⟨f, next, hi, _⟩
    · rwa [hsame]
    · exact h.read hi hkept
    · exact h.carryOut hi hkept (hfs f (List.mem_of_getElem? (h.getElem?_eq hi)))

end Steps

end Crew

namespace FileTree

/-- When all are done and no write failed, every file that is listed is settled. -/
theorem settledAt_crewAfter [Grammar] {t : FileTree} {o : SweepOptions} {m : Machine}
    {fs : List SourceFile}
    (hwrites : ∀ r ∈ (t.sweepTogether o .inPlace m fs).2, ∀ e, r.status ≠ .writeFailed e)
    (l : Location) :
    (t.crewAfter o .inPlace m fs).settledAt t l =
      fs.countP (fun f => t.fileOf? f.path = some l) := by
  have hsettled : ∀ x ∈ (t.crewAfter o .inPlace m fs).files, x.2.isSettled = true := by
    intro x hx
    obtain ⟨i, hi⟩ := List.mem_iff_getElem?.mp hx
    have hf := getElem?_of_crewAfter hi
    obtain ⟨r, hr⟩ := exists_done_of_getElem? t o .inPlace m hf
    have hreport := hwrites r (List.mem_of_getElem? (getElem?_sweepTogether_iff.mpr ⟨_, hf, hr⟩))
    have hdone : x.2 = .done r := congrArg Prod.snd (Option.some.inj (hi.symm.trans hr))
    simp [hdone, Stage.isSettled, FileStatus.isWriteFailure_eq_false_iff.mpr hreport]
  have hcount : (t.crewAfter o .inPlace m fs).settledAt t l =
      ((t.crewAfter o .inPlace m fs).files.map Prod.fst).countP
        (fun f => t.fileOf? f.path = some l) := by
    rw [Crew.settledAt, List.countP_map]
    apply List.countP_congr
    intro x hx
    simp [hsettled x hx]
  rw [hcount, map_fst_crewAfter]

/-- A file that holds what it held before, settled: its text is the output for the text before, or
its bytes are the ones before if these cannot be read or swept. -/
theorem read_of_settled [Grammar] {t after : FileTree} {p : Path} {l l' : Location} {c : ByteArray}
    {o : SweepOptions} (hl : t.locate p = .ok (l, .file c))
    (hafter : after.locate p = .ok (l', .file (o.settle c))) :
    (∀ source swept, t.readText p = .ok source → sweep source o = .ok swept →
        after.readText p = .ok swept.output) ∧
      ((∀ source swept, t.readText p = .ok source → sweep source o ≠ .ok swept) →
        after.readBytes p = .ok c) := by
  constructor
  · intro source swept hread hsweep
    obtain ⟨k, hk⟩ := exists_locate_of_readText hread
    obtain ⟨-, rfl⟩ : l = k ∧ c = source.toUTF8 := by simpa [hl] using hk
    rw [SweepOptions.settle_of_swept hsweep] at hafter
    exact readText_of_locate_text hafter
  · intro hfails
    have hkept : o.settle c = c := SweepOptions.settle_of_not_swept (fun source swept htext =>
      hfails source swept (by rw [readText_of_locate hl, htext]))
    rw [hkept] at hafter
    exact readBytes_of_locate hafter

theorem fileOf?_of_leadsToFile {t : FileTree} {p : Path} (h : t.LeadsToFile p) :
    t.fileOf? p = t.place? p ∧ (t.fileOf? p).isSome = true := by
  obtain ⟨⟨l, c, hl⟩, _⟩ := h
  have hfile := fileOf?_eq_some_iff.mpr ⟨c, hl⟩
  exact ⟨hfile.trans (place?_of_locate hl).symm, by rw [hfile]; rfl⟩

end FileTree

/-! ## The law -/

/-- On any machine, if no write fails, every file of a tree is swept at least once if roots lead to
it, and at most once for each of them; what that comes to hangs on which of its sweeps are written
before the others read. So a file that a single root leads to, or that another sweep would leave as
it is, holds the output for what it held before the run, or still holds that if it cannot be read or
swept. One after another, all the sweeps count. A command line in place is such a run. -/
theorem an_in_place_run_sweeps_a_file_at_most_once_for_each_root [Grammar] (t : FileTree)
    (hw : t.WellFormed) (d : Discovery) (roots : List Path) (o : SweepOptions) (m : Machine)
    (after : FileTree) (reports : List FileReport)
    (hrun : t.sweepTogether o .inPlace m (t.sourceFiles d roots) = (after, reports))
    (hwrites : ∀ r ∈ reports, ∀ e, r.status ≠ .writeFailed e) :
    (∀ l c, t.fileAt? l = some c → ∃ n, after.fileAt? l = some (o.settle^[n] c) ∧
      n ≤ roots.countP (t.leadsTo d l) ∧ (0 < roots.countP (t.leadsTo d l) → 0 < n)) ∧
    (∀ f ∈ t.sourceFiles d roots, ∃ l c, t.locate f.path = .ok (l, .file c) ∧
      0 < roots.countP (t.leadsTo d l) ∧
      (∃ n, after.readBytes f.path = .ok (o.settle^[n] c) ∧ 0 < n ∧
        n ≤ roots.countP (t.leadsTo d l)) ∧
      (roots.countP (t.leadsTo d l) = 1 ∨ o.settle (o.settle c) = o.settle c →
        (∀ source swept, t.readText f.path = .ok source → sweep source o = .ok swept →
          after.readText f.path = .ok swept.output) ∧
        ((∀ source swept, t.readText f.path = .ok source → sweep source o ≠ .ok swept) →
          after.readBytes f.path = .ok c))) ∧
    ((∀ r ∈ (t.sweepFiles o .inPlace (t.sourceFiles d roots)).2, ∀ e, r.status ≠ .writeFailed e) ∧
      ∀ l c, t.fileAt? l = some c →
        (t.sweepFiles o .inPlace (t.sourceFiles d roots)).1.fileAt? l =
          some (o.settle^[roots.countP (t.leadsTo d l)] c)) ∧
    (∀ a : Arguments, WriteMode.ofArgs a.strip = .inPlace →
      FileTree.sweepOptions (t.workspace a.discovery a.output).loaded.settings a = .ok o →
      (t.workspace a.discovery a.output).discovery = d →
      (t.workspace a.discovery a.output).roots = roots → (t.runSweep a m).tree = after) := by
  have hfiles : ∀ f ∈ t.sourceFiles d roots, t.LeadsToFile f.path := fun f hf => hw.leadsToFile hf
  obtain ⟨rfl, rfl⟩ := Prod.mk.inj hrun
  have hsettling := (Crew.settling_start t o (t.sourceFiles d roots) m.faults).run
    (fun f hf => (FileTree.fileOf?_of_leadsToFile (hfiles f hf)).2)
    (m.turns ++ Crew.inOrder (t.sourceFiles d roots).length)
  -- The settled files at a place are the roots that lead there.
  have hcount : ∀ l, (t.crewAfter o .inPlace m (t.sourceFiles d roots)).settledAt t l =
      roots.countP (t.leadsTo d l) := by
    intro l
    rw [FileTree.settledAt_crewAfter hwrites, ← hw.countP_sourceFiles]
    exact List.countP_congr (fun f hf => by
      rw [(FileTree.fileOf?_of_leadsToFile (hfiles f hf)).1])
  have hholds : ∀ l c, t.fileAt? l = some c → ∃ n,
      (t.sweepTogether o .inPlace m (t.sourceFiles d roots)).1.fileAt? l =
        some (o.settle^[n] c) ∧
      n ≤ roots.countP (t.leadsTo d l) ∧ (0 < roots.countP (t.leadsTo d l) → 0 < n) := by
    intro l c hl
    rw [← hcount]
    exact hsettling.holds l c hl
  refine ⟨hholds, ?_, ⟨FileTree.sweepFiles_inPlace_writes hfiles o, ?_⟩, ?_⟩
  · intro f hf
    obtain ⟨l, c, hl⟩ := (hfiles f hf).1
    have hlisted : 0 < roots.countP (t.leadsTo d l) := by
      rw [← hw.countP_sourceFiles, List.countP_pos_iff]
      exact ⟨f, hf, by simpa using FileTree.place?_of_locate hl⟩
    obtain ⟨n, hn, hle, hpos⟩ := hholds l c (FileTree.fileAt?_of_locate hl)
    have hafter := hsettling.tree.grown.locate hl (FileTree.fileAt?_eq_some_iff.mp hn)
    refine ⟨l, c, hl, hlisted, ⟨n, FileTree.readBytes_of_locate hafter, hpos hlisted, hle⟩, ?_⟩
    intro honce
    rw [SweepOptions.iterate_settle (hpos hlisted) hle honce] at hafter
    exact FileTree.read_of_settled hl hafter
  · intro l c hl
    rw [FileTree.fileAt?_sweepFiles_inPlace hfiles o hl, hw.countP_sourceFiles]
  · rintro a hmode ho rfl rfl
    rw [FileTree.tree_runSweep m hmode (by simp) ho rfl rfl]
    split
    · rename_i hnone
      rw [List.isEmpty_iff.mp hnone]
      exact (t.sweepTogether_nil o .inPlace m).symm
    · rfl

/-- One file with a log. -/
def loneFile : FileTree := ⟨[], [(["a.js"], .file "console.log(1)".toUTF8)]⟩

/-- A directory that leads to the file. -/
theorem a_lone_file_is_swept_once :
    ∃ after reports, loneFile.sweepTogether ⟨.standard, none, false⟩ .inPlace {}
        (loneFile.sourceFiles ⟨[], [], ["js"]⟩ [⟨["."]⟩]) = (after, reports) ∧
      (∀ r ∈ reports, ∀ e, r.status ≠ .writeFailed e) ∧
      after.readText ⟨[".", "a.js"]⟩ = .ok "null /* console.log(1) */" := by
  have hreports : (loneFile.sweepTogether ⟨.standard, none, false⟩ .inPlace {}
      (loneFile.sourceFiles ⟨[], [], ["js"]⟩ [⟨["."]⟩])).2 =
      [⟨"a.js", 1, .stripped, none⟩] := by decide +kernel
  have hwrites : ∀ r ∈ (loneFile.sweepTogether ⟨.standard, none, false⟩ .inPlace {}
      (loneFile.sourceFiles ⟨[], [], ["js"]⟩ [⟨["."]⟩])).2, ∀ e, r.status ≠ .writeFailed e := by
    simp [hreports]
  obtain ⟨_, hfound, _⟩ := an_in_place_run_sweeps_a_file_at_most_once_for_each_root loneFile
    (by decide +kernel) ⟨[], [], ["js"]⟩ [⟨["."]⟩] ⟨.standard, none, false⟩ {} _ _ rfl hwrites
  obtain ⟨l, c, hl, _, _, honce⟩ := hfound ⟨⟨[".", "a.js"]⟩, ⟨["."]⟩⟩ (by decide +kernel)
  have hplace : loneFile.place? ⟨[".", "a.js"]⟩ = some ["a.js"] := by decide +kernel
  obtain rfl : l = ["a.js"] := by
    rw [FileTree.place?_of_locate hl] at hplace
    exact Option.some.inj hplace
  obtain ⟨swept, hsweep, houtput⟩ : ∃ swept, sweep "console.log(1)" ⟨.standard, none, false⟩ =
      .ok swept ∧ swept.output = "null /* console.log(1) */" := by decide +kernel
  refine ⟨_, _, rfl, hwrites, ?_⟩
  rw [← houtput]
  exact (honce (Or.inl (by decide +kernel))).1 "console.log(1)" swept (by decide +kernel) hsweep

/-- A root that is given twice leads to its file twice, and the second sweep may take up the output
of the first. -/
theorem a_root_given_twice_is_swept_twice :
    ¬ ∀ (t : FileTree) (d : Discovery) (roots : List Path) (o : SweepOptions) (m : Machine)
        (after : FileTree) (reports : List FileReport), t.WellFormed →
      t.sweepTogether o .inPlace m (t.sourceFiles d roots) = (after, reports) →
      (∀ r ∈ reports, ∀ e, r.status ≠ .writeFailed e) →
      ∀ f ∈ t.sourceFiles d roots, ∀ source swept,
        t.readText f.path = .ok source → sweep source o = .ok swept →
          after.readText f.path = .ok swept.output := by
  intro hclaim
  obtain ⟨swept, hsweep, houtput⟩ : ∃ swept,
      sweep "console.log(1)" ⟨.standard, some (.template "x({call})"), false⟩ = .ok swept ∧
        swept.output = "x(console.log(1))" := by decide +kernel
  have hreports : (loneFile.sweepTogether ⟨.standard, some (.template "x({call})"), false⟩
      .inPlace {} (loneFile.sourceFiles ⟨[], [], ["js"]⟩ [⟨["a.js"]⟩, ⟨["a.js"]⟩])).2 =
      [⟨"a.js", 1, .stripped, none⟩, ⟨"a.js", 1, .stripped, none⟩] := by decide +kernel
  have honce := hclaim loneFile ⟨[], [], ["js"]⟩ [⟨["a.js"]⟩, ⟨["a.js"]⟩]
    ⟨.standard, some (.template "x({call})"), false⟩ {} _ _ (by decide +kernel)
    (Prod.eta _).symm (by simp [hreports]) ⟨⟨["a.js"]⟩, ⟨["a.js"]⟩⟩ (by decide +kernel)
    "console.log(1)" swept (by decide +kernel) hsweep
  rw [houtput] at honce
  exact absurd honce (by decide +kernel)

end LogSweep
