-- Places and the paths that lead there. A path is followed piece by piece, so it goes on leading to
-- the same place as long as nothing on its way is taken away or turned into something else. Writing
-- a text and making directories never do that, and each says what it changes.
import Mathlib.Data.List.Induction
import LogSweep.Destination

namespace LogSweep.FileTree

/-! ## Well-formed trees -/

/-- A tree as a file system keeps it: every name can be one, and every entry stands in a
directory. -/
structure WellFormed (t : FileTree) : Prop where
  named : ∀ k ∈ t.entries, ∀ n ∈ k.1, isName n = true
  rooted : ∀ k ∈ t.entries, t.find? k.1.dropLast = some .directory
  working : t.find? t.workDir = some .directory

instance (t : FileTree) : Decidable t.WellFormed :=
  decidable_of_iff
    ((∀ k ∈ t.entries, ∀ n ∈ k.1, isName n = true) ∧
      (∀ k ∈ t.entries, t.find? k.1.dropLast = some .directory) ∧
      t.find? t.workDir = some .directory)
    ⟨fun ⟨h1, h2, h3⟩ => ⟨h1, h2, h3⟩, fun ⟨h1, h2, h3⟩ => ⟨h1, h2, h3⟩⟩

@[simp] theorem find?_nil (t : FileTree) : t.find? [] = some .directory := rfl

theorem mem_entries_of_find? {t : FileTree} {l : Location} {e : Entry} (h : t.find? l = some e)
    (hl : l ≠ []) : (l, e) ∈ t.entries := by
  rw [find?, if_neg hl, List.lookup_eq_some_iff] at h
  obtain ⟨before, after, heq, _⟩ := h
  simp [heq]

theorem WellFormed.isName_of_find? {t : FileTree} (h : t.WellFormed) {l : Location} {e : Entry}
    (hl : t.find? l = some e) {n : String} (hn : n ∈ l) : isName n = true :=
  h.named _ (mem_entries_of_find? hl (List.ne_nil_of_mem hn)) n hn

theorem WellFormed.find?_dropLast {t : FileTree} (h : t.WellFormed) {l : Location} {e : Entry}
    (hl : t.find? l = some e) : t.find? l.dropLast = some .directory := by
  by_cases hnil : l = []
  · simp [hnil]
  · exact h.rooted _ (mem_entries_of_find? hl hnil)

/-- Everything above an entry is a directory. -/
theorem WellFormed.find?_above {t : FileTree} (h : t.WellFormed) {l m : Location} {e : Entry}
    (hm : m ≠ []) (hl : t.find? (l ++ m) = some e) : t.find? l = some .directory := by
  induction m using List.reverseRecOn generalizing e with
  | nil => exact absurd rfl hm
  | append_singleton init n ih =>
    have hup := h.find?_dropLast hl
    rw [← List.append_assoc, List.dropLast_concat] at hup
    by_cases hinit : init = []
    · simpa [hinit] using hup
    · exact ih hinit hup

/-! ## Following pieces -/

theorem isName_iff {piece : String} :
    isName piece = true ↔ piece ≠ "" ∧ piece ≠ "." ∧ piece ≠ ".." := by
  simp [isName, and_assoc]

theorem find?_of_follow_cons {t : FileTree} {l k : Location} {s : String} {rest : List String}
    (h : t.follow l (s :: rest) = .ok k) : t.find? l = some .directory := by
  rw [follow] at h
  split at h
  · assumption
  · simp at h
  · simp at h

theorem follow_name {t : FileTree} {l : Location} {n : String} (hn : isName n = true)
    (hl : t.find? l = some .directory) (rest : List String) :
    t.follow l (n :: rest) = t.follow (l ++ [n]) rest := by
  rw [isName_iff] at hn
  simp [follow, hl, hn]

theorem follow_idle {t : FileTree} {l : Location} (hl : t.find? l = some .directory)
    (rest : List String) : t.follow l ("" :: rest) = t.follow l rest := by
  simp [follow, hl]

theorem follow_append (t : FileTree) (l : Location) (ps qs : List String) :
    t.follow l (ps ++ qs) = (t.follow l ps).bind (fun k => t.follow k qs) := by
  induction ps generalizing l with
  | nil => rfl
  | cons s rest ih =>
    simp only [List.cons_append, follow]
    split
    · split
      · exact ih l
      · split
        · exact ih l.dropLast
        · exact ih (l ++ [s])
    · rfl
    · rfl

/-- What is followed in two parts stops somewhere in between. -/
theorem follow_append_eq_ok {t : FileTree} {l k : Location} {ps qs : List String}
    (h : t.follow l (ps ++ qs) = .ok k) : ∃ m, t.follow l ps = .ok m ∧ t.follow m qs = .ok k := by
  rw [follow_append] at h
  rcases hm : t.follow l ps with e | m
  · simp [hm, Except.bind] at h
  · exact ⟨m, rfl, by simpa [hm, Except.bind] using h⟩

/-- Names lead down. -/
theorem eq_append_of_follow {t : FileTree} {l k : Location} {names : List String}
    (hnames : ∀ n ∈ names, isName n = true) (h : t.follow l names = .ok k) : k = l ++ names := by
  induction names generalizing l with
  | nil => simpa [follow] using h.symm
  | cons n rest ih =>
    rw [follow_name (hnames n (by simp)) (find?_of_follow_cons h)] at h
    rw [ih (fun m hm => hnames m (List.mem_cons_of_mem _ hm)) h]
    simp

/-- Whatever pieces are followed, names are what is gone down by. -/
theorem isName_of_follow {t : FileTree} {l k : Location} {ps : List String}
    (hl : ∀ n ∈ l, isName n = true) (h : t.follow l ps = .ok k) : ∀ n ∈ k, isName n = true := by
  induction ps generalizing l with
  | nil =>
    rw [follow, Except.ok.injEq] at h
    exact h ▸ hl
  | cons s rest ih =>
    simp only [follow, find?_of_follow_cons h, Bool.or_eq_true, decide_eq_true_eq] at h
    split at h
    · exact ih hl h
    · rename_i hs
      split at h
      · exact ih (fun n hn => hl n ((List.dropLast_sublist l).mem hn)) h
      · rename_i hup
        refine ih (fun n hn => ?_) h
        rcases List.mem_append.mp hn with hn | hn
        · exact hl n hn
        · rw [List.mem_singleton] at hn
          rw [hn, isName_iff]
          exact ⟨fun he => hs (Or.inl he), fun he => hs (Or.inr he), hup⟩

/-- The names of an entry lead there. -/
theorem WellFormed.follow_names {t : FileTree} (h : t.WellFormed) {l : Location}
    {names : List String} {e : Entry} (hl : t.find? (l ++ names) = some e) :
    t.follow l names = .ok (l ++ names) := by
  induction names generalizing l with
  | nil => simp [follow]
  | cons n rest ih =>
    have hstep : l ++ n :: rest = l ++ [n] ++ rest := by simp
    rw [follow_name (h.isName_of_find? hl (by simp)) (h.find?_above (by simp) hl), hstep,
      ih (hstep ▸ hl)]

/-! ## Locating paths -/

/-- The place that a path leads to. -/
def place? (t : FileTree) (p : Path) : Option Location :=
  match t.locate p with
  | .ok (l, _) => some l
  | .error _ => none

theorem locate_eq_ok_iff {t : FileTree} {p : Path} {l : Location} {e : Entry} :
    t.locate p = .ok (l, e) ↔
      p.pieces ≠ [""] ∧ t.follow (t.start p) p.pieces = .ok l ∧ t.find? l = some e := by
  unfold locate
  by_cases hp : p.pieces = [""]
  · simp [hp]
  · rw [if_neg hp]
    rcases hf : t.follow (t.start p) p.pieces with err | k
    · simp
    · simp only [ne_eq, hp, not_false_eq_true, Except.ok.injEq, true_and]
      constructor
      · intro h
        split at h
        · rename_i entry hk
          simp only [Except.ok.injEq, Prod.mk.injEq] at h
          exact ⟨h.1, by rw [← h.1, ← h.2, hk]⟩
        · simp at h
      · rintro ⟨rfl, hk⟩
        rw [hk]

theorem place?_of_locate {t : FileTree} {p : Path} {l : Location} {e : Entry}
    (h : t.locate p = .ok (l, e)) : t.place? p = some l := by
  simp [place?, h]

/-! ## Joined paths -/

theorem isAbsolute_cons (a : String) (ps : List String) :
    (Path.mk (a :: ps)).isAbsolute = (a = "" && !ps.isEmpty) := by
  rcases ps with _ | ⟨b, ps⟩
  · simp [Path.isAbsolute]
  · by_cases ha : a = "" <;> simp [Path.isAbsolute, ha]

theorem isAbsolute_append {ps qs : List String} (hps : ps ≠ []) (hqs : qs ≠ []) :
    (Path.mk (ps ++ qs)).isAbsolute = decide (ps.head? = some "") := by
  rcases ps with _ | ⟨a, ps⟩
  · exact absurd rfl hps
  · rw [List.cons_append, isAbsolute_cons]
    simp [hqs]

/-- What is joined to a directory is followed from there. -/
theorem follow_join {t : FileTree} {p q : Path} {k : Location}
    (hp : t.locate p = .ok (k, .directory)) (hq : q.isAbsolute = false) (hne : q.pieces ≠ []) :
    t.follow (t.start (p.join q)) (p.join q).pieces = t.follow k q.pieces := by
  obtain ⟨hempty, hfollow, hdir⟩ := locate_eq_ok_iff.mp hp
  obtain ⟨ps⟩ := p
  obtain ⟨qs⟩ := q
  simp only at hempty hfollow hne
  rw [Path.join, if_neg (by simp [hq, hempty])]
  by_cases hlast : ps.getLast? = some ""
  · -- The slash at the end of a directory's path leads nowhere else.
    obtain ⟨init, rfl⟩ := List.getLast?_eq_some_iff.mp hlast
    have hinit : init ≠ [] := by
      rintro rfl
      exact hempty rfl
    obtain ⟨m, hm, hk⟩ := follow_append_eq_ok hfollow
    rw [follow_idle (find?_of_follow_cons hk), follow, Except.ok.injEq] at hk
    subst hk
    have hstart : t.start ⟨init ++ qs⟩ = t.start ⟨init ++ [""]⟩ := by
      simp only [start, isAbsolute_append hinit hne, isAbsolute_append hinit (List.cons_ne_nil _ _)]
    rw [if_pos hlast, List.dropLast_concat, hstart, follow_append, hm]
    rfl
  · have hstart : t.start ⟨ps ++ qs⟩ = t.start ⟨ps⟩ := by
      rcases ps with _ | ⟨a, _ | ⟨b, ps⟩⟩
      · rw [start, start, List.nil_append, hq]
        rfl
      · have ha : a ≠ "" := fun ha => hlast (by simp [ha])
        simp [start, isAbsolute_cons, ha]
      · simp [start, isAbsolute_cons]
    rw [if_neg hlast, hstart, follow_append, hfollow]
    rfl

/-- Names joined to a directory lead down from it. -/
theorem locate_join {t : FileTree} {p : Path} {k : Location} {names : List String} {e : Entry}
    (hp : t.locate p = .ok (k, .directory)) (hne : names ≠ [])
    (hnames : ∀ n ∈ names, isName n = true) (hfollow : t.follow k names = .ok (k ++ names))
    (he : t.find? (k ++ names) = some e) : t.locate (p.join ⟨names⟩) = .ok (k ++ names, e) := by
  obtain ⟨n, rest, rfl⟩ := List.exists_cons_of_ne_nil hne
  have hn : n ≠ "" := (isName_iff.mp (hnames n (by simp))).1
  have hrelative : (Path.mk (n :: rest)).isAbsolute = false := by simp [isAbsolute_cons, hn]
  refine locate_eq_ok_iff.mpr ⟨?_, ?_, he⟩
  · -- The joined path ends in what was joined to it.
    intro hempty
    have hsuffix : (n :: rest) <:+ (p.join ⟨n :: rest⟩).pieces := by
      unfold Path.join
      split
      · exact List.suffix_refl _
      · split <;> exact List.suffix_append _ _
    rw [hempty] at hsuffix
    have hmem := hsuffix.subset (List.mem_cons_self)
    exact hn (by simpa using hmem)
  · rw [follow_join hp hrelative hne, hfollow]

/-! ## Trees that only grow -/

/-- Whatever stands in `t` stands in `t'` too: a directory as a directory, a file as a file. -/
structure Grown (t t' : FileTree) : Prop where
  workDir : t'.workDir = t.workDir
  directory : ∀ l, t.find? l = some .directory → t'.find? l = some .directory
  file : ∀ l c, t.find? l = some (.file c) → ∃ c', t'.find? l = some (.file c')

theorem Grown.refl (t : FileTree) : Grown t t := ⟨rfl, fun _ h => h, fun _ c h => ⟨c, h⟩⟩

theorem Grown.trans {t u v : FileTree} (h : Grown t u) (k : Grown u v) : Grown t v := by
  refine ⟨k.workDir.trans h.workDir, fun l hl => k.directory l (h.directory l hl), ?_⟩
  intro l c hl
  obtain ⟨c', hl'⟩ := h.file l c hl
  exact k.file l c' hl'

/-- What is followed goes on leading to the same place as long as every directory stays one. -/
theorem follow_of_directories {t t' : FileTree}
    (h : ∀ l, t.find? l = some .directory → t'.find? l = some .directory) {l k : Location}
    {ps : List String} (hf : t.follow l ps = .ok k) : t'.follow l ps = .ok k := by
  induction ps generalizing l with
  | nil => exact hf
  | cons s rest ih =>
    have hl := find?_of_follow_cons hf
    simp only [FileTree.follow, hl] at hf
    simp only [FileTree.follow, h l hl]
    split
    · rename_i hs
      rw [if_pos hs] at hf
      exact ih hf
    · rename_i hs
      rw [if_neg hs] at hf
      split
      · rename_i hup
        rw [if_pos hup] at hf
        exact ih hf
      · rename_i hup
        rw [if_neg hup] at hf
        exact ih hf

theorem Grown.follow {t t' : FileTree} (h : Grown t t') {l k : Location} {ps : List String}
    (hf : t.follow l ps = .ok k) : t'.follow l ps = .ok k := follow_of_directories h.directory hf

/-- A path goes on leading to the same place. -/
theorem Grown.locate {t t' : FileTree} (h : Grown t t') {p : Path} {l : Location} {e e' : Entry}
    (hp : t.locate p = .ok (l, e)) (hl : t'.find? l = some e') : t'.locate p = .ok (l, e') := by
  obtain ⟨hempty, hf, _⟩ := locate_eq_ok_iff.mp hp
  refine locate_eq_ok_iff.mpr ⟨hempty, h.follow ?_, hl⟩
  simpa only [start, h.workDir] using hf

theorem Grown.locate_directory {t t' : FileTree} (h : Grown t t') {p : Path} {l : Location}
    (hp : t.locate p = .ok (l, .directory)) : t'.locate p = .ok (l, .directory) :=
  h.locate hp (h.directory l (locate_eq_ok_iff.mp hp).2.2)

theorem Grown.locate_file {t t' : FileTree} (h : Grown t t') {p : Path} {l : Location}
    {c : ByteArray} (hp : t.locate p = .ok (l, .file c)) : ∃ c', t'.locate p = .ok (l, .file c') := by
  obtain ⟨c', hl⟩ := h.file l c (locate_eq_ok_iff.mp hp).2.2
  exact ⟨c', h.locate hp hl⟩

theorem Grown.exists_locate {t t' : FileTree} (h : Grown t t') {p : Path} {l : Location} {e : Entry}
    (hp : t.locate p = .ok (l, e)) : ∃ e', t'.locate p = .ok (l, e') := by
  rcases e with c | _
  · obtain ⟨c', hp'⟩ := h.locate_file hp
    exact ⟨.file c', hp'⟩
  · exact ⟨.directory, h.locate_directory hp⟩

/-! ## What files hold -/

/-- What the file at a place holds, if one stands there. -/
def fileAt? (t : FileTree) (l : Location) : Option ByteArray :=
  match t.find? l with
  | some (.file c) => some c
  | _ => none

theorem fileAt?_eq_some_iff {t : FileTree} {l : Location} {c : ByteArray} :
    t.fileAt? l = some c ↔ t.find? l = some (.file c) := by
  unfold fileAt?
  split <;> simp_all

theorem fileAt?_of_find? {t t' : FileTree} {l : Location} (h : t'.find? l = t.find? l) :
    t'.fileAt? l = t.fileAt? l := by
  rw [fileAt?, fileAt?, h]

theorem fileAt?_of_locate {t : FileTree} {p : Path} {l : Location} {c : ByteArray}
    (h : t.locate p = .ok (l, .file c)) : t.fileAt? l = some c :=
  fileAt?_eq_some_iff.mpr (locate_eq_ok_iff.mp h).2.2

theorem readBytes_of_locate {t : FileTree} {p : Path} {l : Location} {c : ByteArray}
    (h : t.locate p = .ok (l, .file c)) : t.readBytes p = .ok c := by
  rw [readBytes, h]

theorem fromUTF8?_eq_some_iff {content : ByteArray} {text : String} :
    String.fromUTF8? content = some text ↔ content = text.toUTF8 := by
  unfold String.fromUTF8?
  constructor
  · intro h
    split at h
    · rw [Option.some.injEq] at h
      rw [← h]
      rfl
    · simp at h
  · rintro rfl
    exact dif_pos text.isValidUTF8

theorem readText_of_locate {t : FileTree} {p : Path} {l : Location} {c : ByteArray}
    (h : t.locate p = .ok (l, .file c)) :
    t.readText p = match String.fromUTF8? c with
      | some text => .ok text
      | none => .error .notText := by
  simp only [readText, readBytes_of_locate h, bind, Except.bind]
  split <;> simp_all [pure, Except.pure, throw, throwThe, MonadExceptOf.throw]

/-- What is read as a text is what a file holds. -/
theorem exists_locate_of_readText {t : FileTree} {p : Path} {text : String}
    (h : t.readText p = .ok text) : ∃ l, t.locate p = .ok (l, .file text.toUTF8) := by
  rcases hp : t.locate p with e | ⟨l, _ | _⟩
  · simp [readText, readBytes, hp, bind, Except.bind] at h
  · rename_i c
    rw [readText_of_locate hp] at h
    split at h
    · rename_i text' htext
      rw [Except.ok.injEq] at h
      rw [fromUTF8?_eq_some_iff.mp htext, h]
      exact ⟨l, rfl⟩
    · simp at h
  · simp [readText, readBytes, hp, bind, Except.bind] at h

theorem readText_of_locate_text {t : FileTree} {p : Path} {l : Location} {text : String}
    (h : t.locate p = .ok (l, .file text.toUTF8)) : t.readText p = .ok text := by
  rw [readText_of_locate h, fromUTF8?_eq_some_iff.mpr rfl]

/-- A path goes on giving the same text as long as the file that it leads to holds the same. -/
theorem Grown.readText {t t' : FileTree} (h : Grown t t') {p : Path} {l : Location} {c : ByteArray}
    (hp : t.locate p = .ok (l, .file c)) (hl : t'.fileAt? l = t.fileAt? l) :
    t'.readText p = t.readText p := by
  rw [fileAt?_of_locate hp, fileAt?_eq_some_iff] at hl
  rw [readText_of_locate hp, readText_of_locate (h.locate hp hl)]

/-! ## Writing -/

theorem grown_put_file {t : FileTree} {l : Location} (h : t.find? l ≠ some .directory)
    (c : ByteArray) : Grown t (t.put l (.file c)) := by
  have hne : l ≠ [] := by
    rintro rfl
    exact h rfl
  refine ⟨rfl, fun k hk => ?_, fun k c' hk => ?_⟩
  · rwa [find?_put_ne _ (by rintro rfl; exact h hk)]
  · by_cases hkl : k = l
    · subst hkl
      exact ⟨c, find?_put_self _ hne⟩
    · exact ⟨c', by rwa [find?_put_ne _ hkl]⟩

theorem grown_put_directory {t : FileTree} {l : Location} (h : t.find? l = none) :
    Grown t (t.put l .directory) := by
  refine ⟨rfl, fun k hk => ?_, fun k c hk => ⟨c, ?_⟩⟩
  · rwa [find?_put_ne _ (by rintro rfl; simp [h] at hk)]
  · rwa [find?_put_ne _ (by rintro rfl; simp [h] at hk)]

theorem placeIn_eq_ok_iff {t : FileTree} {p : Path} {pieces : List String} {name : String}
    {l : Location} :
    t.placeIn p pieces name = .ok l ↔
      ∃ k, t.follow (t.start p) pieces = .ok k ∧ t.find? k = some .directory ∧ l = k ++ [name] := by
  rcases hf : t.follow (t.start p) pieces with e | k
  · simp [placeIn, hf, bind, Except.bind]
  · simp only [placeIn, hf, bind, Except.bind, Except.ok.injEq, exists_eq_left']
    split
    · simp_all [pure, Except.pure, eq_comm]
    · simp_all [throw, throwThe, MonadExceptOf.throw]
    · simp_all [throw, throwThe, MonadExceptOf.throw]

/-- A text is written at the place of a name in a directory, and never over a directory. -/
theorem writeText_eq_ok_iff {t t' : FileTree} {p : Path} {text : String} :
    t.writeText p text = .ok t' ↔
      ∃ init name l, p.pieces = init ++ [name] ∧ isName name = true ∧
        t.placeIn p init name = .ok l ∧ t.find? l ≠ some .directory ∧
        t' = t.put l (.file text.toUTF8) := by
  unfold writeText
  rcases List.eq_nil_or_concat p.pieces with hnil | ⟨init, name, hcut⟩
  · simp [hnil, throw, throwThe, MonadExceptOf.throw]
  · rw [List.concat_eq_append] at hcut
    simp only [hcut, List.getLast?_concat, List.dropLast_concat]
    constructor
    · intro h
      by_cases hname : isName name = true
      · rcases hplace : t.placeIn p init name with e | l
        · simp [hname, hplace, bind, Except.bind] at h
        · simp only [hname, if_true, hplace, bind, Except.bind] at h
          refine ⟨init, name, l, rfl, hname, hplace, ?_⟩
          split at h
          · simp [throw, throwThe, MonadExceptOf.throw] at h
          · rename_i hfree
            exact ⟨hfree, (Except.ok.inj h).symm⟩
      · rcases hl : t.locate p with e | l <;>
          simp [hname, hl, bind, Except.bind, throw, throwThe, MonadExceptOf.throw] at h
    · rintro ⟨init', name', l, heq, hname, hplace, hfree, rfl⟩
      obtain ⟨rfl, hlast⟩ := List.append_inj' heq rfl
      obtain rfl : name = name' := by simpa using hlast
      simp only [hname, if_true, hplace, bind, Except.bind]
      rfl

/-- A path that leads to a file and ends in its name can be written to. -/
theorem writeText_of_locate {t : FileTree} {p : Path} {init : List String} {name : String}
    {l : Location} {c : ByteArray} (hp : p.pieces = init ++ [name]) (hname : isName name = true)
    (h : t.locate p = .ok (l, .file c)) (text : String) :
    t.writeText p text = .ok (t.put l (.file text.toUTF8)) := by
  obtain ⟨_, hf, hl⟩ := locate_eq_ok_iff.mp h
  rw [hp] at hf
  obtain ⟨k, hk, hstep⟩ := follow_append_eq_ok hf
  have hdir := find?_of_follow_cons hstep
  have hplace : l = k ++ [name] := by
    rw [follow_name hname hdir, follow, Except.ok.injEq] at hstep
    exact hstep.symm
  refine writeText_eq_ok_iff.mpr ⟨init, name, l, hp, hname, ?_, by simp [hl], rfl⟩
  exact placeIn_eq_ok_iff.mpr ⟨k, hk, hdir, hplace⟩

/-- A path that leads to a file ends in a name. -/
theorem WellFormed.exists_name_of_locate {t : FileTree} (hw : t.WellFormed) {p : Path}
    {l : Location} {c : ByteArray} (h : t.locate p = .ok (l, .file c)) :
    ∃ init name, p.pieces = init ++ [name] ∧ isName name = true := by
  obtain ⟨_, hf, hl⟩ := locate_eq_ok_iff.mp h
  rcases List.eq_nil_or_concat p.pieces with hnil | ⟨init, name, hcut⟩
  · -- Without pieces a path leads to a directory.
    have hstart : t.find? (t.start p) = some .directory := by
      rw [start]
      split
      · rfl
      · exact hw.working
    rw [hnil, follow, Except.ok.injEq] at hf
    simp [← hf, hstart] at hl
  · rw [List.concat_eq_append] at hcut
    refine ⟨init, name, hcut, ?_⟩
    rw [hcut] at hf
    obtain ⟨k, _, hstep⟩ := follow_append_eq_ok hf
    have hdir := find?_of_follow_cons hstep
    -- Any other last piece leads to a directory: the one before it, or the one above that.
    by_contra hname
    rw [isName_iff] at hname
    simp only [follow, hdir, Bool.or_eq_true, decide_eq_true_eq] at hstep
    split at hstep
    · rw [Except.ok.injEq] at hstep
      simp [← hstep, hdir] at hl
    · split at hstep
      · rw [Except.ok.injEq] at hstep
        simp [← hstep, hw.find?_dropLast hdir] at hl
      · simp_all

/-! ## Making directories -/

/-- Nothing but directories was added. -/
structure Furnished (t t' : FileTree) : Prop extends Grown t t' where
  fileAt? : ∀ l, t'.fileAt? l = t.fileAt? l

theorem Furnished.refl (t : FileTree) : Furnished t t := ⟨Grown.refl t, fun _ => rfl⟩

theorem Furnished.trans {t u v : FileTree} (h : Furnished t u) (k : Furnished u v) :
    Furnished t v :=
  ⟨h.toGrown.trans k.toGrown, fun l => (k.fileAt? l).trans (h.fileAt? l)⟩

theorem Furnished.locate_file {t t' : FileTree} (h : Furnished t t') {p : Path} {l : Location}
    {c : ByteArray} (hp : t.locate p = .ok (l, .file c)) : t'.locate p = .ok (l, .file c) :=
  h.toGrown.locate hp (fileAt?_eq_some_iff.mp ((h.fileAt? l).trans (fileAt?_of_locate hp)))

theorem furnished_put_directory {t : FileTree} {l : Location} (h : t.find? l = none) :
    Furnished t (t.put l .directory) := by
  refine ⟨grown_put_directory h, fun k => ?_⟩
  by_cases hkl : k = l
  · subst hkl
    have hne : k ≠ [] := by
      rintro rfl
      simp at h
    simp [fileAt?, find?_put_self _ hne, h]
  · exact fileAt?_of_find? (find?_put_ne _ hkl)

/-- A directory is made at the place of a name in a directory, where nothing was. Slashes after the
name do not count. -/
theorem exists_put_of_makeDirectory {t t' : FileTree} {p : Path} (h : t.makeDirectory p = .ok t') :
    ∃ init name rest k, p.pieces = init ++ name :: rest ∧ (∀ s ∈ rest, s = "") ∧
      isName name = true ∧ t.follow (t.start p) init = .ok k ∧ t.find? k = some .directory ∧
      t.find? (k ++ [name]) = none ∧ t' = t.put (k ++ [name]) .directory := by
  have hcut : p.pieces = (p.pieces.reverse.dropWhile (· = "")).reverse ++
      (p.pieces.reverse.takeWhile (· = "")).reverse := by
    rw [← List.reverse_append, List.takeWhile_append_dropWhile, List.reverse_reverse]
  unfold makeDirectory at h
  simp only at h
  rcases List.eq_nil_or_concat (p.pieces.reverse.dropWhile (· = "")).reverse with
    hnil | ⟨init, name, hlast⟩
  · rw [hnil] at h
    simp only [List.getLast?_nil] at h
    split at h <;> simp [throw, throwThe, MonadExceptOf.throw] at h
  · rw [List.concat_eq_append] at hlast
    simp only [hlast, List.getLast?_concat, List.dropLast_concat] at h
    rcases hplace : t.placeIn p init name with e | l
    · simp only [hplace, bind, Except.bind, reduceCtorEq] at h
    · obtain ⟨k, hfollow, hdir, rfl⟩ := placeIn_eq_ok_iff.mp hplace
      simp only [hplace, bind, Except.bind] at h
      split at h
      · rename_i hfree
        rw [Bool.and_eq_true, Option.isNone_iff_eq_none] at hfree
        refine ⟨init, name, (p.pieces.reverse.takeWhile (· = "")).reverse, k, ?_, ?_, hfree.1,
          hfollow, hdir, hfree.2, (Except.ok.inj h).symm⟩
        · rw [hlast, List.append_assoc] at hcut
          exact hcut
        · intro s hs
          have hidle := List.all_takeWhile (l := p.pieces.reverse) (p := (· = ""))
          exact of_decide_eq_true (List.all_eq_true.mp hidle s (List.mem_reverse.mp hs))
      · simp [throw, throwThe, MonadExceptOf.throw] at h

theorem furnished_of_makeDirectory {t t' : FileTree} {p : Path} (h : t.makeDirectory p = .ok t') :
    Furnished t t' := by
  obtain ⟨_, _, _, _, _, _, _, _, _, hfree, rfl⟩ := exists_put_of_makeDirectory h
  exact furnished_put_directory hfree

/-- Whether or not a chain of directories can be made, nothing but directories is added. -/
theorem furnished_makeChain (t : FileTree) (ps : List Path) : Furnished t (t.makeChain ps).1 := by
  induction ps with
  | nil => exact Furnished.refl t
  | cons p above ih =>
    rw [makeChain]
    split
    · rename_i made hmade
      exact furnished_of_makeDirectory hmade
    · split
      · rename_i made e hchain
        simpa [hchain] using ih
      · rename_i made hchain
        have habove : Furnished t made := by simpa [hchain] using ih
        split
        · rename_i done hdone
          exact habove.trans (furnished_of_makeDirectory hdone)
        · split <;> exact habove
    · split <;> exact Furnished.refl t

theorem furnished_makeDirectories (t : FileTree) (p : Path) :
    Furnished t (t.makeDirectories p).1 := furnished_makeChain t _

end LogSweep.FileTree
