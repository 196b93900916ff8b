-- The texts of targets. A text is read as a target exactly when it is a dotted name, which may be
-- said of its parts or by a regular language over its characters. What was read is displayed as it
-- was written, white space around it aside, and read again as the same.
import Mathlib.Computability.Language
import LogSweep.Proofs.TargetHistories

namespace LogSweep

open scoped Computability

/-! ## The pure model -/

namespace Target

/-- One of `A` to `Z`, `a` to `z`, `_` and `$`. -/
def StartsName (c : Char) : Prop :=
  ('A' ≤ c ∧ c ≤ 'Z') ∨ ('a' ≤ c ∧ c ≤ 'z') ∨ c = '_' ∨ c = '$'

def ContinuesName (c : Char) : Prop := Text.isWordChar c = true ∨ c = '$'

def IsName (part : List Char) : Prop :=
  ∃ c cs, part = c :: cs ∧ StartsName c ∧ ∀ d ∈ cs, ContinuesName d

/-- At least two names with a dot between any two neighbours. -/
def IsDotted (cs : List Char) : Prop :=
  2 ≤ (cs.splitOn '.').length ∧ ∀ part ∈ cs.splitOn '.', IsName part

/-- The texts of one character of a class. -/
def oneOf (p : Char → Prop) : Language Char := {w | ∃ c, p c ∧ w = [c]}

def nameLanguage : Language Char := oneOf StartsName * (oneOf ContinuesName)∗

def tailLanguage : Language Char := oneOf (· = '.') * nameLanguage

/-- A name, and one or more times a dot and a name. -/
def dottedLanguage : Language Char := nameLanguage * (tailLanguage * tailLanguage∗)

end Target

/-! ## Blanks at the ends -/

theorem Text.trimBy_trimBy (p : Char → Bool) (cs : List Char) :
    Text.trimBy p (Text.trimBy p cs) = Text.trimBy p cs := by
  have hfront : (Text.trimBy p cs).dropWhile p = Text.trimBy p cs := by
    rw [List.dropWhile_eq_self_iff]
    intro hlength
    -- The first character was left when blanks were dropped from the front.
    have hkept : Text.trimBy p cs <+: cs.dropWhile p := List.rdropWhile_prefix p (cs.dropWhile p)
    rw [hkept.getElem hlength]
    exact List.dropWhile_get_zero_not p cs (Nat.lt_of_lt_of_le hlength hkept.length_le)
  have hback : (Text.trimBy p cs).rdropWhile p = Text.trimBy p cs :=
    List.rdropWhile_idempotent p (cs.dropWhile p)
  calc Text.trimBy p (Text.trimBy p cs)
      = ((Text.trimBy p cs).dropWhile p).rdropWhile p := rfl
    _ = (Text.trimBy p cs).rdropWhile p := by rw [hfront]
    _ = Text.trimBy p cs := hback

theorem Text.trim_trim (text : String) : Text.trim (Text.trim text) = Text.trim text := by
  rw [Text.trim, Text.trim, String.toList_ofList, Text.trimBy_trimBy]

namespace Target

/-! ## Names -/

theorem isSegmentStart_iff (c : Char) : isSegmentStart c = true ↔ StartsName c := by
  simp only [isSegmentStart, StartsName, Char.isAlpha, Char.isUpper, Char.isLower, Char.le_def,
    Bool.or_eq_true, Bool.and_eq_true, decide_eq_true_eq, ge_iff_le, or_assoc]

theorem isSegment_iff (part : List Char) : isSegment part = true ↔ IsName part := by
  rcases part with _ | ⟨c, cs⟩
  · simp [isSegment, IsName]
  · simp only [isSegment, IsName, Bool.and_eq_true, List.all_eq_true, Bool.or_eq_true,
      decide_eq_true_eq, isSegmentStart_iff]
    constructor
    · rintro ⟨hc, hcs⟩
      exact ⟨c, cs, rfl, hc, hcs⟩
    · rintro ⟨_, _, heq, hc, hcs⟩
      obtain ⟨rfl, rfl⟩ := List.cons.inj heq
      exact ⟨hc, hcs⟩

/-! ## The language of dotted names -/

theorem mem_kstar_oneOf {p : Char → Prop} {w : List Char} :
    w ∈ (oneOf p)∗ ↔ ∀ c ∈ w, p c := by
  rw [Language.mem_kstar]
  constructor
  · rintro ⟨pieces, rfl, hpieces⟩ c hc
    obtain ⟨piece, hpiece, hin⟩ := List.mem_flatten.mp hc
    obtain ⟨d, hd, rfl⟩ := hpieces piece hpiece
    rw [List.mem_singleton] at hin
    rwa [hin]
  · intro h
    refine ⟨w.map (fun c => [c]), ?_, ?_⟩
    · rw [← List.flatMap_def, List.flatMap_singleton']
    · intro piece hpiece
      obtain ⟨c, hc, rfl⟩ := List.mem_map.mp hpiece
      exact ⟨c, h c hc, rfl⟩

theorem mem_nameLanguage {w : List Char} : w ∈ nameLanguage ↔ IsName w := by
  rw [nameLanguage, Language.mem_mul]
  constructor
  · rintro ⟨_, ⟨c, hc, rfl⟩, cs, hcs, rfl⟩
    exact ⟨c, cs, rfl, hc, mem_kstar_oneOf.mp hcs⟩
  · rintro ⟨c, cs, rfl, hc, hcs⟩
    exact ⟨[c], ⟨c, hc, rfl⟩, cs, mem_kstar_oneOf.mpr hcs, rfl⟩

theorem mem_tailLanguage {w : List Char} :
    w ∈ tailLanguage ↔ ∃ part, IsName part ∧ w = '.' :: part := by
  rw [tailLanguage, Language.mem_mul]
  constructor
  · rintro ⟨_, ⟨_, rfl, rfl⟩, part, hpart, rfl⟩
    exact ⟨part, mem_nameLanguage.mp hpart, rfl⟩
  · rintro ⟨part, hpart, rfl⟩
    exact ⟨['.'], ⟨'.', rfl, rfl⟩, part, mem_nameLanguage.mpr hpart, rfl⟩

theorem mem_kstar_tailLanguage {w : List Char} :
    w ∈ tailLanguage∗ ↔
      ∃ parts : List (List Char), (∀ part ∈ parts, IsName part) ∧ w = parts.flatMap ('.' :: ·) := by
  rw [Language.mem_kstar]
  constructor
  · rintro ⟨pieces, rfl, hpieces⟩
    induction pieces with
    | nil => exact ⟨[], by simp, rfl⟩
    | cons piece pieces ih =>
      rw [List.forall_mem_cons] at hpieces
      obtain ⟨part, hpart, rfl⟩ := mem_tailLanguage.mp hpieces.1
      obtain ⟨parts, hparts, hrest⟩ := ih hpieces.2
      refine ⟨part :: parts, List.forall_mem_cons.mpr ⟨hpart, hparts⟩, ?_⟩
      rw [List.flatten_cons, hrest, List.flatMap_cons]
  · rintro ⟨parts, hparts, rfl⟩
    refine ⟨parts.map ('.' :: ·), rfl, ?_⟩
    intro piece hpiece
    obtain ⟨part, hpart, rfl⟩ := List.mem_map.mp hpiece
    exact mem_tailLanguage.mpr ⟨part, hparts part hpart, rfl⟩

theorem intercalate_dots (part : List Char) (parts : List (List Char)) :
    ['.'].intercalate (part :: parts) = part ++ parts.flatMap ('.' :: ·) := by
  induction parts generalizing part with
  | nil => simp
  | cons next parts ih => rw [List.intercalate_cons_cons, ih, List.flatMap_cons]; simp

/-- Said of the parts or of the characters, it is the same. -/
theorem isDotted_iff_mem (cs : List Char) : IsDotted cs ↔ cs ∈ dottedLanguage := by
  constructor
  · rintro ⟨hlength, hparts⟩
    have hjoin : ['.'].intercalate (cs.splitOn '.') = cs := List.intercalate_splitOn '.'
    rcases hcut : cs.splitOn '.' with _ | ⟨first, _ | ⟨second, rest⟩⟩
    · simp [hcut] at hlength
    · simp [hcut] at hlength
    · rw [hcut, List.forall_mem_cons, List.forall_mem_cons] at hparts
      obtain ⟨hfirst, hsecond, hrest⟩ := hparts
      rw [hcut, intercalate_dots, List.flatMap_cons] at hjoin
      refine Language.mem_mul.mpr ⟨first, mem_nameLanguage.mpr hfirst, _, ?_, hjoin⟩
      exact Language.mem_mul.mpr ⟨'.' :: second, mem_tailLanguage.mpr ⟨second, hsecond, rfl⟩, _,
        mem_kstar_tailLanguage.mpr ⟨rest, hrest, rfl⟩, rfl⟩
  · intro h
    obtain ⟨first, hfirst, _, htails, rfl⟩ := Language.mem_mul.mp h
    obtain ⟨_, hsecond, _, hrest, rfl⟩ := Language.mem_mul.mp htails
    obtain ⟨second, hname, rfl⟩ := mem_tailLanguage.mp hsecond
    obtain ⟨rest, hothers, rfl⟩ := mem_kstar_tailLanguage.mp hrest
    have hnames : ∀ part ∈ first :: second :: rest, IsName part :=
      List.forall_mem_cons.mpr ⟨mem_nameLanguage.mp hfirst,
        List.forall_mem_cons.mpr ⟨hname, hothers⟩⟩
    have hcut := List.splitOn_intercalate '.' (fun part hpart =>
      not_mem_of_isSegment ((isSegment_iff part).mpr (hnames part hpart)))
      (List.cons_ne_nil first (second :: rest))
    rw [intercalate_dots, List.flatMap_cons] at hcut
    rw [IsDotted, hcut]
    exact ⟨by simp, hnames⟩

/-! ## Reading -/

instance (cs : List Char) : Decidable (IsDotted cs) :=
  decidable_of_iff (2 ≤ (cs.splitOn '.').length ∧ ∀ part ∈ cs.splitOn '.', isSegment part = true)
    (by simp only [isSegment_iff, IsDotted])

theorem splits_iff (text : String) :
    (2 ≤ (Text.splitOn '.' (Text.trim text).toList).length &&
      (Text.splitOn '.' (Text.trim text).toList).all isSegment) = true ↔
        IsDotted (Text.trim text).toList := by
  simp only [Text.splitOn_eq, IsDotted, Bool.and_eq_true, decide_eq_true_eq, List.all_eq_true,
    isSegment_iff]

theorem exists_parse_eq_ok_iff (text : String) :
    (∃ t, parse text = .ok t) ↔ IsDotted (Text.trim text).toList := by
  rw [← splits_iff]
  unfold parse
  simp only
  split
  · rename_i h
    simp [h]
  · rename_i h
    simp [h]

theorem parse_eq_error {text : String} (h : ¬ IsDotted (Text.trim text).toList) :
    parse text = .error ⟨Text.trim text⟩ := by
  rw [← splits_iff] at h
  unfold parse
  simp only
  rw [if_neg h]

theorem parse_eq_error_iff (text : String) (e : InvalidTarget) :
    parse text = .error e ↔ ¬ IsDotted (Text.trim text).toList ∧ e = ⟨Text.trim text⟩ := by
  by_cases hdotted : IsDotted (Text.trim text).toList
  · obtain ⟨t, ht⟩ := (exists_parse_eq_ok_iff text).mpr hdotted
    simp [ht, hdotted]
  · simp [parse_eq_error hdotted, hdotted, eq_comm]

theorem parse_eq_ok_iff (text : String) (t : Target) :
    parse text = .ok t ↔
      IsDotted (Text.trim text).toList ∧ Text.trim text = t.display ∧ '.' ∉ t.method.toList := by
  constructor
  · intro h
    exact ⟨(exists_parse_eq_ok_iff text).mp ⟨t, h⟩, parse_eq_ok h⟩
  · rintro ⟨hdotted, hdisplay, hmethod⟩
    obtain ⟨u, hu⟩ := (exists_parse_eq_ok_iff text).mpr hdotted
    obtain ⟨hshown, hlast⟩ := parse_eq_ok hu
    rw [hu, eq_of_display_eq hlast hmethod (hshown.symm.trans hdisplay)]

theorem parse_trim (text : String) : parse (Text.trim text) = parse text := by
  unfold parse
  rw [Text.trim_trim]

/-- What is displayed is read again as the same target. -/
theorem parse_display {text : String} {t : Target} (h : parse text = .ok t) :
    parse t.display = .ok t := by
  rw [← (parse_eq_ok h).1, parse_trim, h]

end Target

namespace TargetSet

/-! ## Lists -/

/-- A list is read up to the first text that is no target. -/
theorem mapM_parse_eq_error_iff {texts : List String} {e : InvalidTarget} :
    texts.mapM Target.parse = .error e ↔
      ∃ before text after, texts = before ++ text :: after ∧
        (∀ other ∈ before, ∃ t, Target.parse other = .ok t) ∧ Target.parse text = .error e := by
  induction texts with
  | nil =>
    constructor
    · intro h
      cases h
    · rintro ⟨before, text, after, hsplit, _⟩
      simp at hsplit
  | cons head texts ih =>
    rcases hhead : Target.parse head with e' | t
    · have hfail : (head :: texts).mapM Target.parse = .error e' := by
        simp [hhead, bind, Except.bind]
      rw [hfail]
      constructor
      · intro h
        obtain rfl := Except.error.inj h
        exact ⟨[], head, texts, rfl, by simp, hhead⟩
      · rintro ⟨before, text, after, hsplit, hbefore, htext⟩
        rcases before with _ | ⟨b, before⟩
        · obtain ⟨rfl, rfl⟩ := List.cons.inj hsplit
          rw [Except.error.inj (hhead.symm.trans htext)]
        · obtain ⟨rfl, rfl⟩ := List.cons.inj hsplit
          obtain ⟨u, hu⟩ := hbefore head List.mem_cons_self
          rw [hhead] at hu
          cases hu
    · have hnext : (head :: texts).mapM Target.parse = .error e ↔
          texts.mapM Target.parse = .error e := by
        rcases hrest : texts.mapM Target.parse with e' | ts
        · simp [hhead, hrest, bind, Except.bind]
        · simp [hhead, hrest, bind, Except.bind, pure, Except.pure]
      rw [hnext, ih]
      constructor
      · rintro ⟨before, text, after, rfl, hbefore, htext⟩
        exact ⟨head :: before, text, after, rfl,
          List.forall_mem_cons.mpr ⟨⟨t, hhead⟩, hbefore⟩, htext⟩
      · rintro ⟨before, text, after, hsplit, hbefore, htext⟩
        rcases before with _ | ⟨b, before⟩
        · obtain ⟨rfl, rfl⟩ := List.cons.inj hsplit
          rw [hhead] at htext
          cases htext
        · obtain ⟨rfl, rfl⟩ := List.cons.inj hsplit
          exact ⟨before, text, after, rfl, (List.forall_mem_cons.mp hbefore).2, htext⟩

theorem parseList_eq_error_iff {texts : List String} {e : InvalidTarget} :
    parseList texts = .error e ↔
      ∃ before text after, texts = before ++ text :: after ∧
        (∀ other ∈ before, ∃ t, Target.parse other = .ok t) ∧ Target.parse text = .error e := by
  rw [← mapM_parse_eq_error_iff]
  rcases hread : texts.mapM Target.parse with e' | ts
  · simp [parseList, hread, bind, Except.bind]
  · simp [parseList, hread, bind, Except.bind, pure, Except.pure]

theorem ofList_of_nodup {ts : List Target} (h : ts.Nodup) : ofList ts = ⟨ts⟩ := by
  induction ts using List.reverseRecOn with
  | nil => rfl
  | append_singleton ts t ih =>
    obtain ⟨hts, _, hnew⟩ := List.nodup_append.mp h
    have ht : t ∉ ts := fun hmem => hnew t hmem t (List.mem_singleton_self t) rfl
    rw [ofList_concat, ih hts, insert_of_not_mem ht]

/-- The displayed targets of a list that was read are read as the same set. -/
theorem parseList_display {texts : List String} {s : TargetSet} (h : parseList texts = .ok s) :
    parseList (s.targets.map Target.display) = .ok s := by
  obtain ⟨ts, hmap, rfl⟩ := parseList_eq_ok_iff.mp h
  refine parseList_eq_ok_iff.mpr ⟨(ofList ts).targets, ?_, ?_⟩
  · rw [List.map_map]
    apply List.map_congr_left
    intro t ht
    have hread : Except.ok t ∈ texts.map Target.parse := by
      rw [hmap]
      exact List.mem_map_of_mem (mem_targets_ofList.mp ht)
    obtain ⟨text, _, htext⟩ := List.mem_map.mp hread
    rw [Function.comp_apply, Target.parse_display htext]
  · exact (ofList_of_nodup (nodup_targets_ofList ts)).symm

end TargetSet

/-! ## The law -/

open Target in
/-- A text is read as the target that is displayed like it, white space around it aside, and whose
method has no dot inside, if it is a dotted name; any other text is refused by what it is without that
white space. What is displayed is read as the same target, and a displayed list as the same set. A
list is refused by its first text that is refused. -/
theorem a_text_is_read_as_a_target_when_it_is_a_dotted_name (text : String) (texts : List String) :
    (∀ t, Target.parse text = .ok t ↔
      IsDotted (Text.trim text).toList ∧ Text.trim text = t.display ∧ '.' ∉ t.method.toList) ∧
    ((∃ t, Target.parse text = .ok t) ↔ IsDotted (Text.trim text).toList) ∧
    (IsDotted (Text.trim text).toList ↔ (Text.trim text).toList ∈ dottedLanguage) ∧
    (¬ IsDotted (Text.trim text).toList → Target.parse text = .error ⟨Text.trim text⟩) ∧
    (∀ t, Target.parse text = .ok t → Target.parse t.display = .ok t) ∧
    (∀ s, TargetSet.parseList texts = .ok s →
      TargetSet.parseList (s.targets.map Target.display) = .ok s) ∧
    ∀ e, TargetSet.parseList texts = .error e ↔
      ∃ before invalid after, texts = before ++ invalid :: after ∧
        (∀ other ∈ before, IsDotted (Text.trim other).toList) ∧
        ¬ IsDotted (Text.trim invalid).toList ∧ e = ⟨Text.trim invalid⟩ := by
  refine ⟨parse_eq_ok_iff text, exists_parse_eq_ok_iff text, isDotted_iff_mem _, parse_eq_error,
    fun t => parse_display, fun s => TargetSet.parseList_display, ?_⟩
  intro e
  rw [TargetSet.parseList_eq_error_iff]
  simp only [exists_parse_eq_ok_iff, parse_eq_error_iff]

/-- One target between blanks, and a list that is refused by its second text. -/
theorem a_list_is_refused_by_its_empty_name :
    Target.parse " window.$log\n" = .ok ⟨"window", "$log"⟩ ∧
      Target.parse "window.$log" = .ok ⟨"window", "$log"⟩ ∧
      TargetSet.parseList ["a.b", " console..log", "x"] = .error ⟨"console..log"⟩ := by
  have hlaw := a_text_is_read_as_a_target_when_it_is_a_dotted_name " window.$log\n"
    ["a.b", " console..log", "x"]
  have hread : Target.parse " window.$log\n" = .ok ⟨"window", "$log"⟩ :=
    (hlaw.1 _).mpr ⟨by decide +kernel, by decide +kernel, by decide +kernel⟩
  have hagain := hlaw.2.2.2.2.1 _ hread
  rw [show Target.display ⟨"window", "$log"⟩ = "window.$log" by decide +kernel] at hagain
  refine ⟨hread, hagain, (hlaw.2.2.2.2.2.2 _).mpr ?_⟩
  exact ⟨["a.b"], " console..log", ["x"], rfl, by decide +kernel, by decide +kernel,
    by decide +kernel⟩

end LogSweep
