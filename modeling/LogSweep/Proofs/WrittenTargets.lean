-- Targets as they are written and callees as they stand in a tree. A target is cut at its last dot
-- when it is read, and a callee is cut at its last member; where no name has a dot inside, the two
-- cuts are the same, so a call is targeted exactly when someone wrote its dotted path.
import LogSweep.Proofs.OutermostCalls

namespace LogSweep

/-! ## Texts cut at a character -/

theorem Text.splitOn_eq (sep : Char) (cs : List Char) : Text.splitOn sep cs = cs.splitOn sep := by
  induction cs with
  | nil => rfl
  | cons c cs ih =>
    rw [Text.splitOn, ih, List.splitOn_cons_eq_if_modifyHead]
    rcases hparts : cs.splitOn sep with _ | ⟨part, parts⟩
    · exact absurd hparts (List.splitOn_ne_nil sep cs)
    · simp

/-- What stands behind the last separator is settled by the whole text. -/
theorem Text.append_cons_inj {sep : Char} {front front' back back' : List Char}
    (hback : sep ∉ back) (hback' : sep ∉ back')
    (h : front ++ sep :: back = front' ++ sep :: back') : front = front' ∧ back = back' := by
  have hlast : ∀ (front : List Char) {back : List Char}, sep ∉ back →
      (front ++ sep :: back).reverse.takeWhile (· ≠ sep) = back.reverse := by
    intro front back hnot
    rw [List.reverse_append, List.reverse_cons, List.append_assoc,
      List.takeWhile_append_of_pos (by intro c hc; simp; rintro rfl; exact hnot (by simpa using hc))]
    simp
  have hsame : back = back' := by
    rw [← List.reverse_inj, ← hlast front hback, h, hlast front' hback']
  subst hsame
  exact ⟨List.append_cancel_right h, rfl⟩

/-! ## Reading targets -/

namespace Target

theorem not_mem_of_isSegment {part : List Char} (h : isSegment part = true) : '.' ∉ part := by
  rcases part with _ | ⟨c, cs⟩
  · simp
  · simp only [isSegment, Bool.and_eq_true, List.all_eq_true] at h
    rintro (_ | ⟨_, hmem⟩)
    · exact absurd h.1 (by decide)
    · exact absurd (h.2 '.' hmem) (by decide)

/-- A text that is read as a target is the target as it is displayed, and its last dot stands
before the method. -/
theorem parse_eq_ok {text : String} {t : Target} (h : parse text = .ok t) :
    Text.trim text = t.display ∧ '.' ∉ t.method.toList := by
  unfold parse at h
  simp only at h
  split at h
  · rename_i hsegments
    rw [Text.splitOn_eq] at h hsegments
    simp only [Bool.and_eq_true, decide_eq_true_eq, List.all_eq_true] at hsegments
    obtain ⟨hlength, hall⟩ := hsegments
    have hjoin : ['.'].intercalate ((Text.trim text).toList.splitOn '.') = (Text.trim text).toList :=
      List.intercalate_splitOn '.'
    rcases List.eq_nil_or_concat ((Text.trim text).toList.splitOn '.') with hnil | ⟨init, last, hcut⟩
    · simp [hnil] at hlength
    · rw [List.concat_eq_append] at hcut
      rw [hcut] at h hlength hall hjoin
      have hinit : init.map String.ofList ≠ [] := by
        rintro hnil
        simp [List.map_eq_nil_iff.mp hnil] at hlength
      simp only [List.dropLast_concat, List.getLast?_concat, Option.getD_some,
        Except.ok.injEq] at h
      subst h
      refine ⟨?_, ?_⟩
      · have hdisplay : ".".intercalate (init.map String.ofList) ++ "." ++ String.ofList last =
            ".".intercalate ((init ++ [last]).map String.ofList) := by
          rw [List.map_append, String.intercalate_append_of_ne_nil hinit (by simp)]
          simp
        rw [display, hdisplay, ← String.toList_inj, String.toList_intercalate, ← hjoin,
          List.map_map]
        simp [Function.comp_def]
      · simpa using not_mem_of_isSegment (hall last (by simp))
  · simp at h

theorem toList_display (t : Target) :
    t.display.toList = t.path.toList ++ '.' :: t.method.toList := by
  simp [display]

/-- Two targets that are displayed alike are the same, if no method has a dot inside. -/
theorem eq_of_display_eq {t u : Target} (ht : '.' ∉ t.method.toList) (hu : '.' ∉ u.method.toList)
    (h : t.display = u.display) : t = u := by
  rw [← String.toList_inj, toList_display, toList_display] at h
  obtain ⟨hpath, hmethod⟩ := Text.append_cons_inj ht hu h
  cases t
  cases u
  simp_all [String.toList_inj]

end Target

/-! ## Sets of targets -/

namespace TargetSet

theorem contains_insert {s : TargetSet} {t u : Target} :
    (s.insert t).2.contains u = true ↔ s.contains u = true ∨ u = t := by
  by_cases ht : t ∈ s.targets
  · rw [insert_of_mem ht]
    constructor
    · exact Or.inl
    · rintro (hu | rfl)
      · exact hu
      · exact contains_iff.mpr ht
  · rw [insert_of_not_mem ht]
    simp [contains_iff]

theorem contains_foldl_insert {ts : List Target} {s : TargetSet} {u : Target} :
    (ts.foldl (fun s t => (s.insert t).2) s).contains u = true ↔ s.contains u = true ∨ u ∈ ts := by
  induction ts generalizing s with
  | nil => simp
  | cons t ts ih => rw [List.foldl_cons, ih, contains_insert, List.mem_cons, or_assoc]

theorem contains_ofList {ts : List Target} {u : Target} :
    (ofList ts).contains u = true ↔ u ∈ ts := by
  rw [ofList, contains_foldl_insert]
  simp [empty, contains]

/-- A list is read text by text. -/
theorem map_parse_eq {texts : List String} {ts : List Target}
    (h : texts.mapM Target.parse = .ok ts) : texts.map Target.parse = ts.map .ok := by
  induction texts generalizing ts with
  | nil =>
    simp only [List.mapM_nil, pure, Except.pure, Except.ok.injEq] at h
    simp [← h]
  | cons text texts ih =>
    rcases hparse : Target.parse text with e | t
    · simp [hparse, bind, Except.bind] at h
    · rcases hrest : texts.mapM Target.parse with e | rest
      · simp [hparse, hrest, bind, Except.bind] at h
      · simp only [List.mapM_cons, hparse, hrest, bind, Except.bind, pure, Except.pure,
          Except.ok.injEq] at h
        subst h
        simp [ih hrest, hparse]

theorem mapM_parse_of_map_eq {texts : List String} {ts : List Target}
    (h : texts.map Target.parse = ts.map .ok) : texts.mapM Target.parse = .ok ts := by
  induction texts generalizing ts with
  | nil =>
    rw [List.map_nil, eq_comm, List.map_eq_nil_iff] at h
    rw [h]
    rfl
  | cons text texts ih =>
    rcases ts with _ | ⟨t, ts⟩
    · simp at h
    · rw [List.map_cons, List.map_cons, List.cons.injEq] at h
      simp only [List.mapM_cons, h.1, ih h.2, bind, Except.bind, pure, Except.pure]

theorem parseList_eq_ok_iff {texts : List String} {s : TargetSet} :
    parseList texts = .ok s ↔ ∃ ts, texts.map Target.parse = ts.map .ok ∧ s = ofList ts := by
  constructor
  · intro h
    rcases hread : texts.mapM Target.parse with e | ts
    · simp [parseList, hread, bind, Except.bind] at h
    · simp only [parseList, hread, bind, Except.bind, pure, Except.pure, Except.ok.injEq] at h
      exact ⟨ts, map_parse_eq hread, h.symm⟩
  · rintro ⟨ts, hmap, rfl⟩
    simp [parseList, mapM_parse_of_map_eq hmap, bind, Except.bind, pure, Except.pure]

/-- A list that is read holds the targets that its texts are read as, and each of its texts is
read as one. -/
theorem contains_parseList {texts : List String} {s : TargetSet} (h : parseList texts = .ok s) :
    (∀ u, s.contains u = true ↔ ∃ text ∈ texts, Target.parse text = .ok u) ∧
      ∀ text ∈ texts, ∃ u, Target.parse text = .ok u := by
  obtain ⟨ts, hmap, rfl⟩ := parseList_eq_ok_iff.mp h
  refine ⟨fun u => ?_, fun text htext => ?_⟩
  · have hmem : Except.ok u ∈ texts.map Target.parse ↔ u ∈ ts := by simp [hmap]
    rw [contains_ofList, ← hmem, List.mem_map]
  · have hmem : Target.parse text ∈ ts.map Except.ok := hmap ▸ List.mem_map_of_mem htext
    obtain ⟨u, _, hu⟩ := List.mem_map.mp hmem
    exact ⟨u, hu.symm⟩

end TargetSet

/-! ## Chains of names -/

namespace MemberChain

theorem segments_ne_nil (c : MemberChain) : c.segments ≠ [] := by
  cases c <;> simp [segments]

theorem dotted_member (base : MemberChain) (p : String) :
    (member base p).dotted = base.dotted ++ "." ++ p := by
  rw [dotted, segments, String.intercalate_append_of_ne_nil base.segments_ne_nil (by simp),
    String.intercalate_singleton, dotted]

/-- Every name of a chain is the name of a node. -/
theorem exists_node_of_mem_segments {t : SyntaxTree} {c : MemberChain} (h : ofTree? t = some c)
    {name : String} (hname : name ∈ c.segments) : ∃ n ∈ t.nodes, n.name? = some name := by
  induction t using ofTree?.induct generalizing c with
  | case1 span n =>
    simp only [ofTree?, Option.some.injEq] at h
    subst h
    simp only [segments, List.mem_singleton] at hname
    subst hname
    exact ⟨_, SyntaxTree.mem_nodes_self _, rfl⟩
  | case2 span object property p base hbase hp ih =>
    simp only [ofTree?, hbase, hp, Option.some.injEq] at h
    subst h
    simp only [segments, List.mem_append, List.mem_singleton] at hname
    rcases hname with hname | rfl
    · obtain ⟨n, hn, hnn⟩ := ih hbase hname
      exact ⟨n, SyntaxTree.mem_nodes_of_child (by simp [SyntaxTree.children]) hn, hnn⟩
    · exact ⟨property, SyntaxTree.mem_nodes_of_child (by simp [SyntaxTree.children])
        (SyntaxTree.mem_nodes_self _), hp⟩
  | case3 => simp [ofTree?] at h
  | case4 span inner ih =>
    obtain ⟨n, hn, hnn⟩ := ih (by simpa [ofTree?] using h) hname
    exact ⟨n, SyntaxTree.mem_nodes_of_child (by simp [SyntaxTree.children]) hn, hnn⟩
  | case5 => simp_all [ofTree?]

/-- The two cuts agree: a chain whose names have no dots inside is written like a target exactly
when its object and its method are those of the target. -/
theorem dotted_eq_display_iff {c : MemberChain} {u : Target}
    (hc : ∀ name ∈ c.segments, '.' ∉ name.toList) (hu : '.' ∉ u.method.toList) :
    c.dotted = u.display ↔ c.split? = some (u.path, u.method) := by
  cases c with
  | name n =>
    have hdot : '.' ∉ n.toList := hc n (by simp [segments])
    constructor
    · intro h
      rw [dotted, segments, String.intercalate_singleton] at h
      rw [h, Target.toList_display] at hdot
      simp at hdot
    · intro h
      simp [split?] at h
  | member base p =>
    have hdot : '.' ∉ p.toList := hc p (by simp [segments])
    have hdisplay : (member base p).dotted = (Target.mk base.dotted p).display := by
      rw [dotted_member, Target.display]
    constructor
    · intro h
      rw [hdisplay] at h
      rw [← Target.eq_of_display_eq hdot hu h, split?]
    · intro h
      simp only [split?, Option.some.injEq, Prod.mk.injEq] at h
      rw [dotted_member, Target.display, h.1, h.2]

end MemberChain

/-- The dotted path that an expression writes, if it is a chain of names. -/
def SyntaxTree.dottedPath? (t : SyntaxTree) : Option String :=
  (MemberChain.ofTree? t).map MemberChain.dotted

/-- No name has a dot inside. -/
def SyntaxTree.DotFree (t : SyntaxTree) : Prop :=
  ∀ n ∈ t.nodes, ∀ name ∈ n.name?, '.' ∉ name.toList

instance (t : SyntaxTree) : Decidable t.DotFree :=
  inferInstanceAs (Decidable (∀ n ∈ t.nodes, ∀ name ∈ n.name?, '.' ∉ name.toList))

/-! ## The law -/

/-- In a tree whose names have no dots inside, a call is matched by a list of targets exactly when
its callee is a chain of names and some text of the list is the dotted path of the chain, white
space around it aside. -/
theorem a_call_is_matched_when_its_path_is_written (root : SyntaxTree) (texts : List String)
    (targets : TargetSet) (hdots : root.DotFree) (hread : TargetSet.parseList texts = .ok targets)
    (span : Span) (callee arguments : SyntaxTree)
    (hcall : .call span callee arguments ∈ root.nodes) :
    matchedCall? targets (.call span callee arguments) = some span ↔
      ∃ d, callee.dottedPath? = some d ∧ ∃ text ∈ texts, d = Text.trim text := by
  obtain ⟨hcontains, hparses⟩ := TargetSet.contains_parseList hread
  -- The names of the callee are among those of the tree.
  have hchain : ∀ chain, MemberChain.ofTree? callee = some chain →
      ∀ name ∈ chain.segments, '.' ∉ name.toList := by
    intro chain hc name hname
    obtain ⟨n, hn, hnn⟩ := MemberChain.exists_node_of_mem_segments hc hname
    have hbelow := SyntaxTree.mem_nodes_of_child (t := .call span callee arguments)
      (by simp [SyntaxTree.children]) hn
    exact hdots n (SyntaxTree.mem_nodes_trans hcall hbelow) name hnn
  rw [SyntaxTree.matchedCall?_eq_some_iff, SyntaxTree.dottedPath?]
  constructor
  · rintro ⟨⟨_, _, _, chain, path, method, heq, hc, hsplit, hin⟩, _⟩
    obtain ⟨rfl, rfl, rfl⟩ := SyntaxTree.call.inj heq
    obtain ⟨text, htext, hparse⟩ := (hcontains ⟨path, method⟩).mp hin
    obtain ⟨htrim, hmethod⟩ := Target.parse_eq_ok hparse
    refine ⟨chain.dotted, by rw [hc, Option.map_some], text, htext, ?_⟩
    rw [htrim]
    exact (MemberChain.dotted_eq_display_iff (hchain chain hc) hmethod).mpr hsplit
  · rintro ⟨d, hd, text, htext, rfl⟩
    obtain ⟨chain, hc, hdotted⟩ := Option.map_eq_some_iff.mp hd
    obtain ⟨u, hparse⟩ := hparses text htext
    obtain ⟨htrim, hmethod⟩ := Target.parse_eq_ok hparse
    rw [htrim] at hdotted
    have hsplit := (MemberChain.dotted_eq_display_iff (hchain chain hc) hmethod).mp hdotted
    have hin := (hcontains u).mpr ⟨text, htext, hparse⟩
    exact ⟨⟨span, callee, arguments, chain, u.path, u.method, rfl, hc, hsplit, hin⟩, rfl⟩

/-- `(window.console).log()`. -/
def logOfWindow : SyntaxTree :=
  .call ⟨0, 22⟩
    (.member ⟨0, 20⟩
      (.other "parenthesized_expression" ⟨0, 16⟩
        [.member ⟨1, 15⟩ (.identifier ⟨1, 7⟩ "window") (.identifier ⟨8, 15⟩ "console")])
      (.identifier ⟨17, 20⟩ "log"))
    (.other "arguments" ⟨20, 22⟩ [])

/-- A target of three names, with white space around it and another target on both sides. -/
theorem log_of_window_is_matched :
    TargetSet.parseList ["a.b", " window.console.log\n", "a.b"] =
        .ok ⟨[⟨"a", "b"⟩, ⟨"window.console", "log"⟩]⟩ ∧
      logOfWindow.DotFree ∧
      matchedCall? ⟨[⟨"a", "b"⟩, ⟨"window.console", "log"⟩]⟩ logOfWindow = some ⟨0, 22⟩ := by
  have hread : TargetSet.parseList ["a.b", " window.console.log\n", "a.b"] =
      .ok ⟨[⟨"a", "b"⟩, ⟨"window.console", "log"⟩]⟩ := by decide +kernel
  have hdots : logOfWindow.DotFree := by decide
  refine ⟨hread, hdots, ?_⟩
  have hlaw := a_call_is_matched_when_its_path_is_written logOfWindow _ _ hdots hread _ _ _
    (SyntaxTree.mem_nodes_self logOfWindow)
  exact hlaw.mpr ⟨"window.console.log", by decide +kernel, " window.console.log\n", by simp,
    by decide +kernel⟩

end LogSweep
