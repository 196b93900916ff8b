-- What is added on the way to a result. Making directories adds them where a path or one above it
-- leads, and nothing else changes. Storing a result below an output directory changes only what
-- lies inside that directory, whether or not it goes well.
import LogSweep.Proofs.Containment
import LogSweep.Proofs.Crews

namespace LogSweep.FileTree

/-! ## Trees that stay well formed -/

theorem WellFormed.put_name {t : FileTree} (hw : t.WellFormed) {k : Location} {n : String}
    (hn : isName n = true) (hk : t.find? k = some .directory)
    (hfree : t.find? (k ++ [n]) ≠ some .directory) (e : Entry) :
    (t.put (k ++ [n]) e).WellFormed := by
  -- Directories stay what they are, so whatever stood in one still does.
  have hkept : ∀ l, t.find? l = some .directory →
      (t.put (k ++ [n]) e).find? l = some .directory := by
    intro l hl
    have hne : l ≠ k ++ [n] := by
      rintro rfl
      exact hfree hl
    rw [find?_put_ne _ hne, hl]
  have hentries : ∀ x ∈ (t.put (k ++ [n]) e).entries, x = (k ++ [n], e) ∨ x ∈ t.entries := by
    intro x hx
    rcases List.mem_cons.mp hx with rfl | hx
    · exact Or.inl rfl
    · exact Or.inr (List.mem_filter.mp hx).1
  refine ⟨?_, ?_, hkept _ hw.working⟩
  · intro x hx m hm
    rcases hentries x hx with rfl | hx
    · rcases List.mem_append.mp hm with hm | hm
      · exact hw.isName_of_find? hk hm
      · rwa [List.mem_singleton.mp hm]
    · exact hw.named x hx m hm
  · intro x hx
    rcases hentries x hx with rfl | hx
    · rw [List.dropLast_concat]
      exact hkept k hk
    · exact hkept _ (hw.rooted x hx)

theorem WellFormed.of_writeText {t t' : FileTree} (hw : t.WellFormed) {p : Path} {text : String}
    (h : t.writeText p text = .ok t') : t'.WellFormed := by
  obtain ⟨init, name, l, _, hname, hplace, hfree, rfl⟩ := writeText_eq_ok_iff.mp h
  obtain ⟨k, _, hdir, rfl⟩ := placeIn_eq_ok_iff.mp hplace
  exact hw.put_name hname hdir hfree _

/-! ## Directories along a path -/

/-- Nothing changed but that directories were made where some of these paths lead. -/
structure MadeAt (ps : List Path) (t t' : FileTree) : Prop extends Furnished t t' where
  wellFormed : t.WellFormed → t'.WellFormed
  added : ∀ l, t'.find? l ≠ t.find? l →
    t.find? l = none ∧ ∃ p ∈ ps, t'.locate p = .ok (l, .directory)

theorem MadeAt.refl (ps : List Path) (t : FileTree) : MadeAt ps t t :=
  ⟨Furnished.refl t, id, fun _ h => absurd rfl h⟩

theorem MadeAt.trans {ps : List Path} {t u v : FileTree} (h : MadeAt ps t u) (k : MadeAt ps u v) :
    MadeAt ps t v := by
  refine ⟨h.toFurnished.trans k.toFurnished, fun hw => k.wellFormed (h.wellFormed hw), ?_⟩
  intro l hl
  by_cases hfirst : u.find? l = t.find? l
  · rw [← hfirst]
    exact k.added l (by rwa [hfirst])
  · obtain ⟨hnone, p, hp, hlocate⟩ := h.added l hfirst
    exact ⟨hnone, p, hp, k.toGrown.locate_directory hlocate⟩

theorem MadeAt.mono {ps qs : List Path} {t t' : FileTree} (h : MadeAt ps t t') (hsub : ps ⊆ qs) :
    MadeAt qs t t' := by
  refine ⟨h.toFurnished, h.wellFormed, ?_⟩
  intro l hl
  obtain ⟨hnone, p, hp, hlocate⟩ := h.added l hl
  exact ⟨hnone, p, hsub hp, hlocate⟩

theorem follow_idle_pieces {t : FileTree} {l : Location} (hl : t.find? l = some .directory)
    {rest : List String} (hrest : ∀ s ∈ rest, s = "") : t.follow l rest = .ok l := by
  induction rest with
  | nil => rfl
  | cons s rest ih =>
    obtain ⟨rfl, hidle⟩ := List.forall_mem_cons.mp hrest
    rw [follow_idle hl, ih hidle]

/-- A directory that is made stands where its path leads. -/
theorem madeAt_of_makeDirectory {t t' : FileTree} {p : Path} (h : t.makeDirectory p = .ok t') :
    MadeAt [p] t t' := by
  have hfurnished := furnished_of_makeDirectory h
  obtain ⟨init, name, rest, k, hpieces, hidle, hname, hfollow, hdir, hfree, rfl⟩ :=
    exists_put_of_makeDirectory h
  have hself : (t.put (k ++ [name]) .directory).find? (k ++ [name]) = some .directory :=
    find?_put_self _ (by simp)
  refine ⟨hfurnished, fun hw => hw.put_name hname hdir (by simp [hfree]) _, ?_⟩
  intro l hl
  obtain rfl : l = k ++ [name] := by
    by_contra hne
    exact hl (find?_put_ne _ hne)
  refine ⟨hfree, p, List.mem_singleton_self p, locate_eq_ok_iff.mpr ⟨?_, ?_, hself⟩⟩
  · intro hempty
    have hmem : name ∈ p.pieces := by simp [hpieces]
    rw [hempty, List.mem_singleton] at hmem
    exact (isName_iff.mp hname).1 hmem
  · have hstart : (t.put (k ++ [name]) .directory).start p = t.start p := rfl
    rw [hstart, hpieces, follow_append, hfurnished.toGrown.follow hfollow, Except.bind,
      follow_name hname (hfurnished.directory k hdir), follow_idle_pieces hself hidle]

/-- Whether or not a chain of directories can be made, those that were are of the chain. -/
theorem madeAt_makeChain (t : FileTree) (ps : List Path) : MadeAt ps t (t.makeChain ps).1 := by
  induction ps with
  | nil => exact MadeAt.refl [] t
  | cons p above ih =>
    have hhead : [p] ⊆ p :: above := by simp
    have habove := ih.mono (List.subset_cons_self p above)
    rw [makeChain]
    split
    · rename_i made hmade
      exact (madeAt_of_makeDirectory hmade).mono hhead
    · split
      · rename_i made e hchain
        simpa [hchain] using habove
      · rename_i made hchain
        rw [hchain] at habove
        split
        · rename_i done hdone
          exact habove.trans ((madeAt_of_makeDirectory hdone).mono hhead)
        · split <;> exact habove
    · split <;> exact MadeAt.refl _ t

theorem madeAt_makeDirectories (t : FileTree) (p : Path) :
    MadeAt p.ancestors t (t.makeDirectories p).1 :=
  (t.madeAt_makeChain _).mono (List.filter_subset_self _)

/-! ## Inside an output directory -/

/-- Nothing went away, and what changed lies below the place where an output directory stands. -/
structure ChangedIn (dir : Path) (t t' : FileTree) : Prop where
  grown : Grown t t'
  wellFormed : t.WellFormed → t'.WellFormed
  inside : ∀ l, t'.find? l ≠ t.find? l →
    ∃ k, t'.locate dir = .ok (k, .directory) ∧ k <+: l ∧ l ≠ k

theorem ChangedIn.refl (dir : Path) (t : FileTree) : ChangedIn dir t t :=
  ⟨Grown.refl t, id, fun _ h => absurd rfl h⟩

theorem ChangedIn.trans {dir : Path} {t u v : FileTree} (h : ChangedIn dir t u)
    (k : ChangedIn dir u v) : ChangedIn dir t v := by
  refine ⟨h.grown.trans k.grown, fun hw => k.wellFormed (h.wellFormed hw), ?_⟩
  intro l hl
  by_cases hfirst : u.find? l = t.find? l
  · exact k.inside l (by rwa [hfirst])
  · obtain ⟨m, hdir, hbelow⟩ := h.inside l hfirst
    exact ⟨m, k.grown.locate_directory hdir, hbelow⟩

section Below

variable {t t' : FileTree} {dir : Path} {k : Location} {e : Entry}

/-- An output directory with something new below it is a directory. -/
theorem changedIn_of_below (hgrown : Grown t t') (hw' : t'.WellFormed)
    (hdir : t.locate dir = .ok (k, e))
    (hbelow : ∀ l, t'.find? l ≠ t.find? l → k <+: l ∧ l ≠ k ∧ t'.find? l ≠ none) :
    ChangedIn dir t t' := by
  refine ⟨hgrown, fun _ => hw', ?_⟩
  intro l hl
  obtain ⟨⟨m, rfl⟩, hne, hsome⟩ := hbelow l hl
  obtain ⟨x, hx⟩ := Option.ne_none_iff_exists'.mp hsome
  have hm : m ≠ [] := by
    rintro rfl
    simp at hne
  exact ⟨k, hgrown.locate hdir (hw'.find?_above hm hx), List.prefix_append k m, hne⟩

/-- A path with a front part of the names of a place leads there or above it. -/
theorem prefix_of_locate {q : Path} {l m : Location} (hq : q.isAbsolute = true)
    (hfront : q.components <+: .root :: l.map .name) (h : t.locate q = .ok (m, e)) : m <+: l := by
  rcases List.prefix_cons_iff.mp hfront with hnil | ⟨cs, hcs, hnames⟩
  · rw [Path.isAbsolute_iff, hnil] at hq
    simp at hq
  · obtain ⟨names, hprefix, rfl⟩ := List.prefix_map_iff.mp hnames
    have hplace := resolve_of_locate h
    rw [resolve, hcs, resolveFrom, resolveFrom_names, List.nil_append] at hplace
    exact hplace ▸ hprefix

/-- Directories that are made on the way to a place below the output directory are made inside
it: everything above it is there. -/
theorem MadeAt.changedIn {ps : List Path} (h : MadeAt ps t t') (hw : t.WellFormed)
    (hdir : t.locate dir = .ok (k, e)) {l : Location} (hl : k <+: l)
    (hps : ∀ q ∈ ps, q.isAbsolute = true ∧ q.components <+: .root :: l.map .name) :
    ChangedIn dir t t' := by
  apply changedIn_of_below h.toGrown (h.wellFormed hw) hdir
  intro m hm
  obtain ⟨hnone, q, hq, hlocate⟩ := h.added m hm
  have hk : t.find? k = some e := (locate_eq_ok_iff.mp hdir).2.2
  have hmdir : t'.find? m = some .directory := (locate_eq_ok_iff.mp hlocate).2.2
  have hne : m ≠ k := by
    rintro rfl
    simp [hnone] at hk
  refine ⟨?_, hne, by simp [hmdir]⟩
  have hml := prefix_of_locate (hps q hq).1 (hps q hq).2 hlocate
  rcases List.prefix_or_prefix_of_prefix hl hml with hkm | ⟨rest, rfl⟩
  · exact hkm
  · have hrest : rest ≠ [] := by
      rintro rfl
      simp at hne
    rw [hw.find?_above hrest hk] at hnone
    simp at hnone

end Below

section Storing

variable {t : FileTree} {f : SourceFile} {dir : Path} {names : List String}

/-- The directories above a place below the output directory are made inside it. -/
theorem changedIn_above (hw : t.WellFormed) {k : Location} {e : Entry}
    (hdir : t.locate dir = .ok (k, e)) {p : Path}
    (hp : p.components = .root :: (k ++ names).map .name) :
    ChangedIn dir t (p.parent?.elim (t, .ok ()) t.makeDirectories).1 := by
  rcases hup : p.parent? with _ | q
  · exact ChangedIn.refl dir t
  · have hq : q.isAbsolute = true := by
      apply Path.isAbsolute_of_mem_climb (n := 1) (p := p)
      · simp [Path.climb, hup]
      · rw [Path.isAbsolute_iff, hp]
        rfl
    obtain ⟨c, _, hc⟩ := Path.components_of_parent? hup
    apply (t.madeAt_makeDirectories q).changedIn hw hdir (List.prefix_append k names)
    intro r hr
    refine ⟨Path.isAbsolute_of_mem_climb hr hq, ?_⟩
    rw [← hp, hc]
    exact (Path.components_prefix_of_mem_climb hr).trans (List.prefix_append _ _)

theorem changedIn_writeText {t' : FileTree} (hw : t.WellFormed) {k : Location} {e : Entry}
    (hdir : t.locate dir = .ok (k, e)) (hk : ∀ n ∈ k, isName n = true) (hne : names ≠ [])
    (hnames : ∀ n ∈ names, isName n = true) {text : String}
    (h : t.writeText ⟨"" :: (k ++ names)⟩ text = .ok t') : ChangedIn dir t t' := by
  have hw' := hw.of_writeText h
  obtain ⟨hfree, rfl, _, _⟩ := exists_front_of_writeText (by simp [hne])
    (fun n hn => (List.mem_append.mp hn).elim (hk n) (hnames n)) h
  apply changedIn_of_below (grown_put_file hfree _) hw' hdir
  intro l hl
  obtain rfl : l = k ++ names := by
    by_contra hother
    exact hl (find?_put_ne _ hother)
  exact ⟨List.prefix_append k names, by simpa using hne, by simp [find?_put_self, hne]⟩

/-- Storing a result changes only what lies inside the output directory. -/
theorem changedIn_store (dir : Path) (hw : t.WellFormed) (hne : names ≠ [])
    (hnames : ∀ n ∈ names, isName n = true)
    (hrelative : t.relativeDestination f.path f.root = ⟨names⟩) (fault : Option FileError)
    (text : String) : ChangedIn dir t (f.store (.outDir dir) fault t text).1 := by
  simp only [SourceFile.store, hrelative]
  rcases hpath : t.containedPath ⟨names⟩ dir with err | destination
  · exact ChangedIn.refl dir t
  · have hrel := Path.isAbsolute_names hnames
    obtain ⟨k, e, hdir, rfl⟩ := exists_locate_of_containedPath hrel hpath
    have hk : ∀ n ∈ k, isName n = true :=
      fun n hn => hw.isName_of_find? (locate_eq_ok_iff.mp hdir).2.2 hn
    have hcomponents : (Path.mk ("" :: (k ++ names))).components =
        .root :: (k ++ names).map .name := by
      have hall : ∀ n ∈ k ++ names, isName n = true :=
        fun n hn => (List.mem_append.mp hn).elim (hk n) (hnames n)
      have hpathOf := components_pathOf hall
      rwa [pathOf, if_neg (by simp [hne])] at hpathOf
    simp only [pathOf_join hk hrel]
    have habove := changedIn_above hw hdir hcomponents
    rcases hmade : (Path.mk ("" :: (k ++ names))).parent?.elim (t, .ok ()) t.makeDirectories with
      ⟨made, err | _⟩
    · rw [hmade] at habove
      simpa only [hmade] using habove
    · rw [hmade] at habove
      rcases hwrite : SourceFile.writeUnder fault made ⟨"" :: (k ++ names)⟩ text with err | written
      · simpa only [hmade, hwrite] using habove
      · simp only [hmade, hwrite]
        obtain ⟨e', hdir'⟩ := habove.grown.exists_locate hdir
        obtain ⟨_, hwrite⟩ := SourceFile.writeUnder_eq_ok_iff.mp hwrite
        exact habove.trans
          (changedIn_writeText (habove.wellFormed hw) hdir' hk hne hnames hwrite)

/-- So does carrying out whatever was decided about a file. -/
theorem changedIn_perform (dir : Path) {t₀ : FileTree} (hgrown : Grown t₀ t) (hw : t.WellFormed)
    (hgoes : t₀.GoesBy f names) (fault : Option FileError) (next : NextStep) :
    ChangedIn dir t (f.perform (.outDir dir) fault t next).1 := by
  cases next with
  | report r => exact ChangedIn.refl dir t
  | write text r =>
    have hstore := changedIn_store dir hw hgoes.ne_nil hgoes.named (hgoes.relative t hgrown) fault
      text
    rw [SourceFile.perform]
    rcases hstored : f.store (.outDir dir) fault t text with ⟨after, err | _⟩
    · rwa [hstored] at hstore
    · rwa [hstored] at hstore

end Storing

end LogSweep.FileTree

/-! ## Workers at an output directory -/

namespace LogSweep.Crew

open FileTree

/-- Workers who sweep files into an output directory: their tree has grown out of the one that the
files were found in, and each file goes by names. -/
structure Filling [Grammar] (t₀ : FileTree) (dir : Path) (o : SweepOptions) (fs : List SourceFile)
    (c : Crew) : Prop
    extends Kept (fun t => Grown t₀ t ∧ t.WellFormed) o (.outDir dir) fs c where
  goes : ∀ f ∈ fs, ∃ names, t₀.GoesBy f names

section Filling

variable [Grammar] {t₀ t : FileTree} {dir : Path} {o : SweepOptions} {fs : List SourceFile}
  {c : Crew}

theorem filling_start (hgrown : Grown t₀ t) (hw : t.WellFormed)
    (hgoes : ∀ f ∈ fs, ∃ names, t₀.GoesBy f names) (faults : Nat → Option FileError) :
    (start t fs faults).Filling t₀ dir o fs :=
  ⟨kept_start ⟨hgrown, hw⟩ faults, hgoes⟩

/-- One turn changes only what lies inside the output directory. -/
theorem Filling.changedIn_turn (h : c.Filling t₀ dir o fs) (i : Nat) :
    ChangedIn dir c.tree (c.turn o (.outDir dir) i).tree := by
  rcases c.turn_cases o (.outDir dir) i with hsame | ⟨f, _, hturn⟩ | ⟨f, next, hi, hturn⟩
  · rw [hsame]
    exact ChangedIn.refl dir _
  · rw [hturn]
    exact ChangedIn.refl dir _
  · obtain ⟨names, hnames⟩ := h.goes f (List.mem_of_getElem? (h.getElem?_eq hi))
    rw [hturn]
    exact changedIn_perform dir h.tree.1 h.tree.2 hnames _ next

theorem Filling.turn (h : c.Filling t₀ dir o fs) (i : Nat) :
    (c.turn o (.outDir dir) i).Filling t₀ dir o fs := by
  refine ⟨h.toKept.turn ?_ i, h.goes⟩
  intro f hf fault _ t _ ht
  obtain ⟨names, hnames⟩ := h.goes f hf
  have hchanged := changedIn_perform dir ht.1 ht.2 hnames fault
  exact ⟨ht.1.trans (hchanged _).grown, (hchanged _).wellFormed ht.2⟩

theorem Filling.run (h : c.Filling t₀ dir o fs) (schedule : List Nat) :
    (c.run o (.outDir dir) schedule).Filling t₀ dir o fs := by
  induction schedule generalizing c with
  | nil => exact h
  | cons i schedule ih => exact ih (h.turn i)

/-- Sweeping files into an output directory changes only what lies inside it. -/
theorem Filling.changedIn_run (h : c.Filling t₀ dir o fs) (schedule : List Nat) :
    ChangedIn dir c.tree (c.run o (.outDir dir) schedule).tree := by
  induction schedule generalizing c with
  | nil => exact ChangedIn.refl dir _
  | cons i schedule ih => exact (h.changedIn_turn i).trans (ih (h.turn i))

end Filling

end LogSweep.Crew
