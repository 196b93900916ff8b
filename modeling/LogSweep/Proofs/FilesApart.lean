-- Files that are swept where they stand. What a sweep does to a file hangs on nothing but what the
-- file holds, and it changes nothing but that. So where no file is listed twice, there is one tree in
-- which each of them was swept as if it were alone.
import LogSweep.Proofs.FileSteps

namespace LogSweep

namespace FileTree

/-! ## Trees of one shape -/

/-- The same directories and the same files, whatever the files hold. -/
structure SameShape (t t' : FileTree) : Prop where
  grown : Grown t t'
  shrunk : Grown t' t

theorem SameShape.refl (t : FileTree) : SameShape t t := ⟨Grown.refl t, Grown.refl t⟩

theorem SameShape.trans {t u v : FileTree} (h : SameShape t u) (k : SameShape u v) :
    SameShape t v :=
  ⟨h.grown.trans k.grown, k.shrunk.trans h.shrunk⟩

/-- What stands at a place of two trees of one shape. -/
theorem SameShape.find?_cases {t t' : FileTree} (h : SameShape t t') (l : Location) :
    (t.find? l = none ∧ t'.find? l = none) ∨
      (t.find? l = some .directory ∧ t'.find? l = some .directory) ∨
      ∃ c c', t.find? l = some (.file c) ∧ t'.find? l = some (.file c') := by
  rcases hl : t.find? l with _ | c | _
  · rcases hl' : t'.find? l with _ | c | _
    · exact Or.inl ⟨rfl, rfl⟩
    · obtain ⟨c', hc'⟩ := h.shrunk.file l c hl'
      simp [hl] at hc'
    · have hd := h.shrunk.directory l hl'
      simp [hl] at hd
  · obtain ⟨c', hc'⟩ := h.grown.file l c hl
    exact Or.inr (Or.inr ⟨c, c', rfl, hc'⟩)
  · exact Or.inr (Or.inl ⟨rfl, h.grown.directory l hl⟩)

theorem SameShape.follow_eq {t t' : FileTree} (h : SameShape t t') (l : Location)
    (pieces : List String) : t'.follow l pieces = t.follow l pieces := by
  induction pieces generalizing l with
  | nil => rfl
  | cons s rest ih =>
    unfold follow
    rcases h.find?_cases l with ⟨hl, hl'⟩ | ⟨hl, hl'⟩ | ⟨c, c', hl, hl'⟩
    · simp only [hl, hl']
    · simp only [hl, hl', ih]
    · simp only [hl, hl']

theorem sameShape_put_file {t : FileTree} {l : Location} {c : ByteArray}
    (h : t.find? l = some (.file c)) (c' : ByteArray) : SameShape t (t.put l (.file c')) := by
  have hne : l ≠ [] := by
    rintro rfl
    simp at h
  refine ⟨grown_put_file (by simp [h]) c', rfl, fun k hk => ?_, fun k d hk => ?_⟩
  · by_cases hkl : k = l
    · subst hkl
      simp [find?_put_self _ hne] at hk
    · rwa [find?_put_ne _ hkl] at hk
  · by_cases hkl : k = l
    · subst hkl
      exact ⟨c, h⟩
    · exact ⟨d, by rwa [find?_put_ne _ hkl] at hk⟩

/-! ## The file that a path leads to -/

/-- The place of the file that a path leads to, if it leads to one. -/
def fileOf? (t : FileTree) (p : Path) : Option Location :=
  match t.locate p with
  | .ok (l, .file _) => some l
  | _ => none

theorem fileOf?_eq_some_iff {t : FileTree} {p : Path} {l : Location} :
    t.fileOf? p = some l ↔ ∃ c, t.locate p = .ok (l, .file c) := by
  unfold fileOf?
  rcases t.locate p with e | ⟨k, c | _⟩ <;> simp

theorem ne_nil_of_fileOf? {t : FileTree} {p : Path} {l : Location} (h : t.fileOf? p = some l) :
    l ≠ [] := by
  rintro rfl
  obtain ⟨c, hc⟩ := fileOf?_eq_some_iff.mp h
  simpa using (locate_eq_ok_iff.mp hc).2.2

/-- Where a path leads in two trees of one shape: nowhere, for the same reason, to the same
directory, or to the same file. -/
theorem SameShape.locate_cases {t t' : FileTree} (h : SameShape t t') (p : Path) :
    (∃ e, t.locate p = .error e ∧ t'.locate p = .error e) ∨
      (∃ l, t.locate p = .ok (l, .directory) ∧ t'.locate p = .ok (l, .directory)) ∨
      ∃ l c c', t.locate p = .ok (l, .file c) ∧ t'.locate p = .ok (l, .file c') ∧
        t.find? l = some (.file c) ∧ t'.find? l = some (.file c') := by
  have hstart : t'.start p = t.start p := by rw [start, start, h.grown.workDir]
  unfold locate
  rw [hstart, h.follow_eq]
  split
  · exact Or.inl ⟨_, rfl, rfl⟩
  · rcases t.follow (t.start p) p.pieces with e | l
    · exact Or.inl ⟨e, rfl, rfl⟩
    · rcases h.find?_cases l with ⟨hl, hl'⟩ | ⟨hl, hl'⟩ | ⟨c, c', hl, hl'⟩
      · exact Or.inl ⟨.notFound, by simp [hl], by simp [hl']⟩
      · exact Or.inr (Or.inl ⟨l, by simp [hl], by simp [hl']⟩)
      · exact Or.inr (Or.inr ⟨l, c, c', by simp [hl], by simp [hl'], hl, hl'⟩)

theorem SameShape.fileOf?_eq {t t' : FileTree} (h : SameShape t t') (p : Path) :
    t'.fileOf? p = t.fileOf? p := by
  unfold fileOf?
  rcases h.locate_cases p with ⟨e, hp, hp'⟩ | ⟨l, hp, hp'⟩ | ⟨l, c, c', hp, hp', _⟩
  · rw [hp, hp']
  · rw [hp, hp']
  · rw [hp, hp']

/-- A path goes on giving the same bytes, or the same error, as long as its file holds the same. -/
theorem SameShape.readBytes_eq {t t' : FileTree} (h : SameShape t t') {p : Path}
    (hp : ∀ l, t.fileOf? p = some l → t'.find? l = t.find? l) : t'.readBytes p = t.readBytes p := by
  unfold readBytes
  rcases h.locate_cases p with ⟨e, hl, hl'⟩ | ⟨l, hl, hl'⟩ | ⟨l, c, c', hl, hl', hc, hc'⟩
  · rw [hl, hl']
  · rw [hl, hl']
  · have hsame := hp l (fileOf?_eq_some_iff.mpr ⟨c, hl⟩)
    rw [hc, hc', Option.some.injEq, Entry.file.injEq] at hsame
    rw [hl, hl', hsame]

theorem SameShape.readText_eq {t t' : FileTree} (h : SameShape t t') {p : Path}
    (hp : ∀ l, t.fileOf? p = some l → t'.find? l = t.find? l) : t'.readText p = t.readText p := by
  unfold readText
  rw [h.readBytes_eq hp]

/-! ## Writing over a file -/

/-- Why a path that leads to a file cannot be written to, if that is so: it does not end in a
name. -/
def refusal? (p : Path) : Option FileError :=
  match p.pieces.getLast? with
  | none => some .notFound
  | some name => if isName name then none else some .isDirectory

/-- Writing to a path that leads to a file: the file holds the text, or the path is refused. -/
theorem writeText_of_fileOf? {t : FileTree} {p : Path} {l : Location} (h : t.fileOf? p = some l)
    (text : String) :
    t.writeText p text = match refusal? p with
      | none => .ok (t.put l (.file text.toUTF8))
      | some e => .error e := by
  obtain ⟨c, hl⟩ := fileOf?_eq_some_iff.mp h
  rcases List.eq_nil_or_concat p.pieces with hnil | ⟨init, name, hcut⟩
  · simp [writeText, refusal?, hnil, throw, throwThe, MonadExceptOf.throw]
  · rw [List.concat_eq_append] at hcut
    by_cases hname : isName name = true
    · rw [writeText_of_locate hcut hname hl]
      simp [refusal?, hcut, hname]
    · simp [writeText, refusal?, hcut, hname, hl, bind, Except.bind, throw, throwThe,
        MonadExceptOf.throw]

/-- Gives a file a new text, when there are both. -/
def refill (t : FileTree) : Option Location → Option String → FileTree
  | some l, some text => t.put l (.file text.toUTF8)
  | _, _ => t

theorem refill_none (t : FileTree) (place : Option Location) : t.refill place none = t := by
  cases place <;> rfl

theorem find?_refill_ne {t : FileTree} {place : Option Location} {k : Location}
    (h : place ≠ some k) (text : Option String) : (t.refill place text).find? k = t.find? k := by
  unfold refill
  split
  · rename_i l _
    exact find?_put_ne _ (fun hk => h (by rw [hk]))
  · rfl

theorem find?_refill_self {t : FileTree} {l : Location} (h : l ≠ []) (text : Option String) :
    (t.refill (some l) text).find? l =
      match text with
      | some text => some (.file text.toUTF8)
      | none => t.find? l := by
  cases text with
  | none => rfl
  | some text => exact find?_put_self _ h

theorem sameShape_refill {t : FileTree} {p : Path} (text : Option String) :
    SameShape t (t.refill (t.fileOf? p) text) := by
  unfold refill
  split
  · rename_i l _ hl
    obtain ⟨c, hc⟩ := fileOf?_eq_some_iff.mp hl
    exact sameShape_put_file (locate_eq_ok_iff.mp hc).2.2 _
  · exact SameShape.refl t

end FileTree

/-! ## One file -/

namespace SourceFile

/-- What becomes of a step for a file that is swept where it stands: the new text, if there is one,
and the report. -/
def finish (f : SourceFile) : NextStep → Option String × FileReport
  | .report r => (none, r)
  | .write text r =>
    match FileTree.refusal? f.path with
    | none => (some text, r)
    | some e => (none, { r with status := .writeFailed (.file e) })

/-- What a sweep makes of a file, from what is read of it. -/
def result [Grammar] (f : SourceFile) (o : SweepOptions) (mode : WriteMode)
    (content : Except FileError String) : Option String × FileReport :=
  f.finish (f.decide o mode content)

/-- Only a text that was read is written again. -/
theorem exists_source_of_write [Grammar] {f : SourceFile} {o : SweepOptions} {mode : WriteMode}
    {content : Except FileError String} {text : String} {r : FileReport}
    (h : f.decide o mode content = .write text r) : ∃ source, content = .ok source := by
  cases content with
  | error e => simp [decide_of_unread] at h
  | ok source => exact ⟨source, rfl⟩

/-- Where results go nowhere, nothing is written. -/
theorem result_of_no_write [Grammar] {mode : WriteMode} (hplace : mode ≠ .inPlace)
    (hdir : ∀ d, mode ≠ .outDir d) (f : SourceFile) (o : SweepOptions)
    (content : Except FileError String) : (f.result o mode content).1 = none := by
  cases content with
  | error e => rfl
  | ok source =>
    rcases hsweep : sweep source o with e | swept
    · rw [result, decide_of_unswept f mode hsweep]
      rfl
    · unfold result SourceFile.decide
      cases mode with
      | inPlace => exact absurd rfl hplace
      | outDir d => exact absurd rfl (hdir d)
      | _ =>
        simp only [hsweep]
        rfl

/-- What can become of a file in place: it cannot be read or swept, it stays as it is, or calls
are replaced in it and the new text is written, unless that fails. -/
theorem result_inPlace_cases [Grammar] (f : SourceFile) (o : SweepOptions)
    (content : Except FileError String) :
    (∃ e, content = .error e ∧ f.result o .inPlace content = (none, f.report 0 (.readFailed e))) ∨
      ∃ source, content = .ok source ∧
        ((∃ e, sweep source o = .error e ∧
            f.result o .inPlace content = (none, f.report 0 (.parseFailed e))) ∨
          ∃ swept, sweep source o = .ok swept ∧
            ((swept.replaced = [] ∧ f.result o .inPlace content = (none, f.report 0 .unchanged)) ∨
              swept.replaced ≠ [] ∧
                (f.result o .inPlace content =
                    (some swept.output, f.report swept.replaced.length .stripped) ∨
                  ∃ e, f.result o .inPlace content =
                    (none, f.report swept.replaced.length (.writeFailed e))))) := by
  cases content with
  | error e => exact Or.inl ⟨e, rfl, rfl⟩
  | ok source =>
    refine Or.inr ⟨source, rfl, ?_⟩
    rcases hsweep : sweep source o with e | swept
    · refine Or.inl ⟨e, rfl, ?_⟩
      rw [result, decide_of_unswept f _ hsweep]
      rfl
    · refine Or.inr ⟨swept, rfl, ?_⟩
      rw [result, decide_inPlace f hsweep]
      by_cases hnone : swept.replaced = []
      · exact Or.inl ⟨hnone, by simp [Outcome.changed, hnone, finish]⟩
      · refine Or.inr ⟨hnone, ?_⟩
        rw [if_pos (by simpa [Outcome.changed] using hnone), finish]
        cases FileTree.refusal? f.path with
        | none => exact Or.inl rfl
        | some e => exact Or.inr ⟨.file e, rfl⟩

/-- A file in place is given a new text exactly when it is reported as stripped. -/
theorem result_inPlace_stripped [Grammar] (f : SourceFile) (o : SweepOptions)
    (content : Except FileError String) :
    ((f.result o .inPlace content).2.status = .stripped ∧
        ∃ source swept, content = .ok source ∧ sweep source o = .ok swept ∧ swept.replaced ≠ [] ∧
          (f.result o .inPlace content).1 = some swept.output) ∨
      ((f.result o .inPlace content).2.status ≠ .stripped ∧
        (f.result o .inPlace content).1 = none) := by
  rcases f.result_inPlace_cases o content with ⟨e, _, hplace⟩ | ⟨source, hread, hsource⟩
  · exact Or.inr (by simp [hplace, report])
  · rcases hsource with ⟨e, _, hplace⟩ | ⟨swept, hsweep, hswept⟩
    · exact Or.inr (by simp [hplace, report])
    · rcases hswept with ⟨_, hplace⟩ | ⟨hsome, hplace | ⟨e, hplace⟩⟩
      · exact Or.inr (by simp [hplace, report])
      · exact Or.inl ⟨by rw [hplace]; rfl, source, swept, hread, hsweep, hsome, by rw [hplace]⟩
      · exact Or.inr (by simp [hplace, report])

/-- What becomes of a step for a file that is swept where it stands, on a machine that may have a
fault there. -/
def finishUnder (f : SourceFile) (fault : Option FileError) (next : NextStep) :
    Option String × FileReport :=
  match fault, next with
  | some e, .write _ r => (none, { r with status := .writeFailed (.file e) })
  | _, _ => f.finish next

@[simp] theorem finishUnder_report (f : SourceFile) (fault : Option FileError) (r : FileReport) :
    f.finishUnder fault (.report r) = f.finish (.report r) := by
  cases fault <;> rfl

/-- With a fault or without one, what a machine makes of a step is what is made of it anywhere, or
a failed write. -/
theorem finishUnder_cases (f : SourceFile) (fault : Option FileError) (next : NextStep) :
    f.finishUnder fault next = f.finish next ∨
      (f.finishUnder fault next).1 = none ∧
        ∃ e, (f.finishUnder fault next).2.status = .writeFailed e := by
  unfold finishUnder
  split
  · exact Or.inr ⟨rfl, _, rfl⟩
  · exact Or.inl rfl

theorem store_eq {f : SourceFile} {mode : WriteMode} (hmode : ∀ d, mode ≠ .outDir d)
    (fault : Option FileError) (t : FileTree) (text : String) :
    f.store mode fault t text = match writeUnder fault t f.path text with
      | .ok written => (written, .ok ())
      | .error e => (t, .error (.file e)) := by
  cases mode with
  | outDir d => exact absurd rfl (hmode d)
  | _ => rfl

/-- Doing what was decided about a file that is swept where it stands. -/
theorem perform_eq {f : SourceFile} {mode : WriteMode} (hmode : ∀ d, mode ≠ .outDir d)
    {t : FileTree} {next : NextStep}
    (h : ∀ text r, next = .write text r → ∃ l, t.fileOf? f.path = some l)
    (fault : Option FileError) :
    f.perform mode fault t next =
      (t.refill (t.fileOf? f.path) (f.finishUnder fault next).1,
        (f.finishUnder fault next).2) := by
  cases next with
  | report r => simp [perform, finish, FileTree.refill_none]
  | write text r =>
    obtain ⟨l, hl⟩ := h text r rfl
    have hwrite := FileTree.writeText_of_fileOf? hl text
    rw [perform, store_eq hmode, hl]
    rcases fault with _ | e
    · rw [writeUnder, hwrite]
      cases hrefused : FileTree.refusal? f.path <;>
        simp [finishUnder, finish, hrefused, FileTree.refill]
    · simp [writeUnder, finishUnder, FileTree.refill_none]

end SourceFile

namespace FileTree

theorem exists_fileOf?_of_decide [Grammar] {t : FileTree} {f : SourceFile} {o : SweepOptions}
    {mode : WriteMode} {text : String} {r : FileReport}
    (h : f.decide o mode (t.readText f.path) = .write text r) :
    ∃ l, t.fileOf? f.path = some l := by
  obtain ⟨source, hsource⟩ := SourceFile.exists_source_of_write h
  obtain ⟨l, hl⟩ := exists_locate_of_readText hsource
  exact ⟨l, fileOf?_eq_some_iff.mpr ⟨_, hl⟩⟩

/-- What a sweep of one file does: it gives the file its new text, if there is one. -/
theorem sweepFile_eq [Grammar] {mode : WriteMode} (hmode : ∀ d, mode ≠ .outDir d) (t : FileTree)
    (o : SweepOptions) (f : SourceFile) :
    t.sweepFile o mode f =
      (t.refill (t.fileOf? f.path) (f.result o mode (t.readText f.path)).1,
        (f.result o mode (t.readText f.path)).2) :=
  SourceFile.perform_eq hmode (fun _ _ h => exists_fileOf?_of_decide h) none

/-! ## Files apart -/

/-- No two of these paths lead to the same file. A path that leads to no file is apart from every
other. -/
def Apart (t : FileTree) (fs : List SourceFile) : Prop :=
  fs.Pairwise (fun f g => ∀ l ∈ t.fileOf? f.path, t.fileOf? g.path ≠ some l)

instance (t : FileTree) (fs : List SourceFile) : Decidable (t.Apart fs) :=
  inferInstanceAs (Decidable (fs.Pairwise _))

theorem SameShape.apart {t t' : FileTree} (h : SameShape t t') {fs : List SourceFile}
    (hfs : t.Apart fs) : t'.Apart fs := by
  unfold Apart at *
  simpa only [h.fileOf?_eq] using hfs

/-- A tree after a sweep of files in which each was swept on its own, and nothing else changed. -/
structure EachSwept [Grammar] (t : FileTree) (o : SweepOptions) (mode : WriteMode)
    (fs : List SourceFile) (after : FileTree) : Prop where
  shape : SameShape t after
  swept : ∀ f ∈ fs, ∀ l, t.fileOf? f.path = some l →
    after.find? l = (t.refill (some l) (f.result o mode (t.readText f.path)).1).find? l
  rest : ∀ l, (∀ f ∈ fs, t.fileOf? f.path ≠ some l) → after.find? l = t.find? l

/-- There is one such tree. -/
theorem EachSwept.find?_eq [Grammar] {t after after' : FileTree} {o : SweepOptions}
    {mode : WriteMode} {fs : List SourceFile} (h : t.EachSwept o mode fs after)
    (h' : t.EachSwept o mode fs after') (l : Location) : after.find? l = after'.find? l := by
  by_cases hl : ∃ f ∈ fs, t.fileOf? f.path = some l
  · obtain ⟨f, hf, hfl⟩ := hl
    rw [h.swept f hf l hfl, h'.swept f hf l hfl]
  · have hnone : ∀ f ∈ fs, t.fileOf? f.path ≠ some l := fun f hf hfl => hl ⟨f, hf, hfl⟩
    rw [h.rest l hnone, h'.rest l hnone]

end FileTree

end LogSweep
