-- The reading of a calm text. Its statements are empty or the word `null`, so the tree of the
-- text has no call and no fault, whatever stands in the comments.
import LogSweep.Proofs.CalmTexts
import LogSweep.Proofs.FirstFaults
import LogSweep.Sweep

namespace LogSweep

/-! ## Tame trees -/

namespace ParseTree

/-- No node is a call, and none has a fault. -/
def Tame (t : ParseTree) : Prop :=
  ∀ n ∈ t.preorder, n.isFault = false ∧ n.kind ≠ "call_expression"

theorem tame_iff (t : ParseTree) :
    t.Tame ↔ (t.isFault = false ∧ t.kind ≠ "call_expression") ∧ ∀ c ∈ t.children, c.Tame := by
  unfold Tame
  rw [preorder_eq, List.forall_mem_cons]
  refine and_congr_right fun _ => ?_
  simp only [List.mem_flatMap, forall_exists_index, and_imp]
  exact ⟨fun h c hc n hn => h n c hc hn, fun h n c hc hn => h c hc n hn⟩

theorem tame_make {l : Label} {cs : List ParseTree} (hmissing : l.missing = false)
    (herror : l.error = false) (hkind : l.kind ≠ "call_expression") (h : ∀ c ∈ cs, c.Tame) :
    (make l cs).Tame := by
  unfold make
  split
  · rw [tame_iff]
    exact ⟨⟨by simp [isFault, label, hmissing, herror], hkind⟩, by simp [children]⟩
  · rw [tame_iff]
    exact ⟨⟨by simp [isFault, label, hmissing, herror], hkind⟩, h⟩

/-- The syntax tree of a tame tree has no call. -/
theorem Tame.not_isCall {t : ParseTree} (h : t.Tame) (source : String) {n : SyntaxTree}
    (hn : n ∈ (t.converted source).nodes) : n.isCall = false := by
  induction t using child_induction with
  | step t ih =>
    obtain ⟨shape, parts, _, hform⟩ := t.exists_form
    obtain ⟨⟨_, hkind⟩, hbelow⟩ := t.tame_iff.mp h
    rw [SyntaxTree.nodes_eq, hform.children_converted, List.mem_cons, List.mem_flatMap] at hn
    rcases hn with rfl | ⟨_, hmem, hn⟩
    · rw [isCall_converted]
      exact decide_eq_false fun hcall => hkind hcall.1
    · obtain ⟨c, hc, rfl⟩ := List.mem_map.mp hmem
      have hchild := hform.mem_children hc
      exact ih c hchild (hbelow c hchild) hn

end ParseTree

namespace Script

theorem tame_mkNode {kind : String} (hkind : kind ≠ "call_expression") (start stop : Nat)
    {children : List ParseTree} (h : ∀ c ∈ children, c.Tame) :
    (mkNode kind start stop children).Tame :=
  ParseTree.tame_make rfl rfl hkind h

theorem tame_comment (k : Comment) : k.node.Tame := by
  refine ParseTree.tame_make rfl rfl ?_ (by simp)
  dsimp only
  split <;> decide

theorem tame_placeAmong {ts : List ParseTree}
    (h : ∀ t ∈ ts, t.Tame ∧ ∀ ks, (placeComments t ks).Tame) (ks : List Comment) :
    ∀ t ∈ placeAmong ts ks, t.Tame := by
  induction ts generalizing ks with
  | nil =>
    intro t ht
    rw [placeAmong, List.mem_map] at ht
    obtain ⟨k, _, rfl⟩ := ht
    exact tame_comment k
  | cons t ts ih =>
    rw [List.forall_mem_cons] at h
    intro n hn
    rw [placeAmong, List.mem_append, List.mem_cons, List.mem_map] at hn
    rcases hn with ⟨k, _, rfl⟩ | rfl | hn
    · exact tame_comment k
    · split
      · exact h.1.1
      · exact h.1.2 _
    · exact ih h.2 _ n hn

theorem tame_placeComments {t : ParseTree} (h : t.Tame) (ks : List Comment) :
    (placeComments t ks).Tame := by
  induction t using ParseTree.child_induction generalizing ks with
  | step t ih =>
    cases t with
    | name l single =>
      rw [placeComments]
      exact h
    | node l composed cs =>
      rw [ParseTree.tame_iff] at h
      rw [placeComments, ParseTree.tame_iff]
      exact ⟨h.1, tame_placeAmong (fun c hc => ⟨h.2 c hc, fun ks => ih c hc (h.2 c hc) ks⟩) ks⟩

/-! ## Runs of readers -/

theorem bind_eq {α β : Type} {f : Reader α} {g : α → Reader β} {c d : Cursor} {a : α}
    (h : f c = .ok (a, d)) : (f >>= g) c = g a d := by
  change (f c >>= fun p => g p.1 p.2) = _
  rw [h]
  rfl

theorem get_eq (c : Cursor) : (get : Reader Cursor) c = .ok (c, c) := rfl

theorem toToken_eq (c : Cursor) : toToken c = .ok (c.next.offset, c.next) := rfl

theorem node_eq (kind : String) (start : Nat) (children : List ParseTree) (c : Cursor) :
    node kind start children c = .ok (mkNode kind start c.offset children, c) := rfl

/-! ## Where an expression ends -/

/-- The statement ends behind a token, or at a semicolon that comes next. -/
def Landing.AtEnd (l : Landing) : Prop :=
  l.ended = true ∨ (l.ended = false ∧ ∃ more, l.cursor.rest = ';' :: more)

section

variable {c : Cursor} (h : (c.land Context.statement.lineEnds true).AtEnd) (r : Rules)
  (start fuel : Nat)

include h

theorem Landing.AtEnd.onward? :
    c.onward? Context.statement.lineEnds = none ∨
      ∃ d more, c.onward? Context.statement.lineEnds = some d ∧ d.rest = ';' :: more := by
  rcases h with hended | ⟨hended, more, hmore⟩
  · exact .inl (if_pos hended)
  · exact .inr ⟨_, more, if_neg (ne_true_of_eq_false hended), hmore⟩

theorem suffixes_atEnd (x : Operand) :
    suffixes r .statement true start (fuel + 1) x c = .ok (x, c) := by
  rw [suffixes, bind_eq (get_eq c)]
  rcases h.onward? with hnone | ⟨d, more, hsome, hrest⟩
  · rw [hnone]
    rfl
  · rw [hsome]
    simp only [hrest]
    cases more <;> rfl

theorem assignment_atEnd (x : Reading) : assignment r .statement start x c = .ok (x, c) := by
  rw [assignment, bind_eq (get_eq c)]
  rcases h.onward? with hnone | ⟨d, more, hsome, hrest⟩
  · rw [hnone]
    rfl
  · have hequals : d.startsWith "=" = false := by
      rw [Cursor.startsWith, hrest]
      rfl
    have hassigning : d.assigning? = none := by
      simp [Cursor.assigning?, assigningOperators, Cursor.eat?, hrest]
    rw [hsome]
    simp only [hequals, hassigning]
    rfl

theorem operatorTail_atEnd (least : Nat) (x : Reading) :
    operatorTail r .statement least start (fuel + 1) x c = .ok (x, c) := by
  rw [operatorTail, bind_eq (get_eq c)]
  dsimp only
  rcases h with hended | ⟨hended, more, hrest⟩
  · rw [if_pos hended]
    rfl
  · have hchoice : choiceNext (c.land Context.statement.lineEnds true) = false := by
      simp [choiceNext, hrest]
    have hoperator : (c.land Context.statement.lineEnds true).cursor.operator? = none := by
      simp [Cursor.operator?, Cursor.assigning?, assigningOperators, Cursor.eat?, Cursor.startsWith,
        operators, hrest]
    rw [if_neg (ne_true_of_eq_false hended), if_neg (ne_true_of_eq_false hchoice), hoperator]
    rfl

theorem sequenceTail_atEnd : r.sequenceTail .statement (fuel + 1) [] c = .ok ([], c) := by
  rw [Rules.sequenceTail, bind_eq (get_eq c)]
  rcases h.onward? with hnone | ⟨d, more, hsome, hrest⟩
  · rw [hnone]
    rfl
  · have hcomma : d.eat? "," = none := by simp [Cursor.eat?, hrest]
    rw [hsome]
    simp only [hcomma]
    rfl

end

/-! ## A statement of the word `null` -/

theorem next_behindNull {c : Cursor} {cs : List Char} (h : c.rest = behindNull cs) :
    c.next.rest = behindNull cs := by
  rw [Cursor.next, h]
  rfl

theorem name?_behindNull {c : Cursor} {cs : List Char} (h : c.rest = behindNull (' ' :: cs)) :
    c.name? = some ("null", c.pass "null".toList (' ' :: cs)) := by
  unfold Cursor.name?
  rw [h]
  rfl

theorem wordStatement_null (fuel : Nat) (r : Rules) (begin after : Cursor) :
    wordStatement fuel r begin "null" after = expressionStatement fuel r := by
  have hreserved : isReserved "null" = true := by decide
  unfold wordStatement
  simp only [hreserved]
  cases after.onward? true <;> simp

section

variable {c : Cursor} {cs : List Char} (hc : c.rest = behindNull (' ' :: cs))
  (hend : ∀ d : Cursor, d.rest = ' ' :: cs → (d.land Context.statement.lineEnds true).AtEnd)

include hc

theorem primary_null (fuel : Nat) (r : Rules) (ctx : Context) :
    ∃ start stop d, primary fuel r ctx c = .ok (.ofTree (mkNode "null" start stop []), d) ∧
      d.rest = ' ' :: cs := by
  have hnext := next_behindNull hc
  have hname := name?_behindNull hnext
  rw [primary, bind_eq (toToken_eq c), bind_eq (get_eq _)]
  simp only [hnext, hname]
  exact ⟨_, _, _, rfl, rfl⟩

include hend

theorem operandRule_null (fuel : Nat) (r : Rules) :
    ∃ start stop d, operandRule (fuel + 1) r .statement c =
      .ok (.ofExpression (mkNode "null" start stop []), d) ∧ d.rest = ' ' :: cs := by
  have hnext := next_behindNull hc
  have hname := name?_behindNull hnext
  obtain ⟨start, stop, d, hprimary, hd⟩ := primary_null hnext (fuel + 1) r .statement
  refine ⟨start, stop, d, ?_, hd⟩
  rw [operandRule, bind_eq (toToken_eq c), bind_eq (get_eq _)]
  simp only [hnext, hname]
  change (primary (fuel + 1) r .statement >>= completed (fuel + 1) r .statement _) c.next = _
  rw [bind_eq hprimary, completed, bind_eq (suffixes_atEnd (hend d hd) _ _ _ _)]
  exact assignment_atEnd (hend d hd) _ _ _

theorem expressions_null (fuel n : Nat) :
    ∃ start stop d, (rules (n + 3)).expressions (fuel + 1) .statement c =
      .ok (mkNode "null" start stop [], d) ∧ d.rest = ' ' :: cs := by
  obtain ⟨start, stop, d, hoperand, hd⟩ :=
    operandRule_null (next_behindNull hc) hend n (rules (n + 1))
  have hoperators : (rules (n + 3)).operators .statement 0 c =
      .ok (.ofExpression (mkNode "null" start stop []), d) := by
    change operatorsRule (n + 2) (rules (n + 2)) .statement 0 c = _
    rw [operatorsRule, bind_eq (toToken_eq c)]
    rw [bind_eq (show (rules (n + 2)).operand .statement c.next = _ from hoperand)]
    exact operatorTail_atEnd (hend d hd) _ _ _ _ _
  have hfirst : (rules (n + 3)).expression .statement c = .ok (mkNode "null" start stop [], d) := by
    rw [Rules.expression, bind_eq hoperators]
    rfl
  refine ⟨start, stop, d, ?_, hd⟩
  rw [Rules.expressions, bind_eq hfirst, bind_eq (sequenceTail_atEnd (hend d hd) _ _)]
  rfl

theorem expressionStatement_null (fuel n : Nat) {P : Cursor → Prop}
    (hsemicolon : ∀ d : Cursor, d.rest = ' ' :: cs → ∃ d', semicolon true d = .ok ((), d') ∧ P d') :
    ∃ t d, expressionStatement (fuel + 1) (rules (n + 3)) c = .ok (t, d) ∧ t.Tame ∧ P d := by
  obtain ⟨start, stop, d, hread, hd⟩ := expressions_null (next_behindNull hc) hend fuel n
  obtain ⟨d', hd', hP⟩ := hsemicolon d hd
  rw [expressionStatement, bind_eq (toToken_eq c), bind_eq hread, bind_eq hd', node_eq]
  have hnull : (mkNode "null" start stop []).Tame := tame_mkNode (by decide) _ _ (by simp)
  exact ⟨_, _, rfl, tame_mkNode (by decide) _ _ (by simpa using hnull), hP⟩

end

theorem statementRule_null {c : Cursor} {cs : List Char} (hc : c.next.rest = behindNull (' ' :: cs))
    (hend : ∀ d : Cursor, d.rest = ' ' :: cs → (d.land Context.statement.lineEnds true).AtEnd)
    (fuel n : Nat) {P : Cursor → Prop}
    (hsemicolon : ∀ d : Cursor, d.rest = ' ' :: cs → ∃ d', semicolon true d = .ok ((), d') ∧ P d') :
    ∃ t d, statementRule (fuel + 1) (rules (n + 3)) c = .ok (t, d) ∧ t.Tame ∧ P d := by
  have hname := name?_behindNull hc
  obtain ⟨t, d, hread, htame, hd⟩ := expressionStatement_null hc hend fuel n hsemicolon
  rw [statementRule, bind_eq (toToken_eq c), bind_eq (get_eq _)]
  simp only [hc, hname]
  refine ⟨t, d, ?_, htame, hd⟩
  change wordStatement _ _ _ "null" _ c.next = _
  rw [wordStatement_null]
  exact hread

/-! ## Statements of a calm text -/

theorem statementRule_stop {c : Cursor} {cs : List Char} (h : c.next.rest = ';' :: cs) (fuel : Nat)
    (r : Rules) :
    ∃ t d, statementRule fuel r c = .ok (t, d) ∧ t.Tame ∧ d.rest = cs := by
  have hagain : c.next.next.rest = ';' :: cs := by
    rw [Cursor.next, h]
    rfl
  have heat : c.next.next.eat? ";" = some (c.next.next.advance 1) := by
    rw [Cursor.eat?, hagain]
    rfl
  have htoken : token ";" c.next = .ok ((), c.next.next.advance 1) := by
    have htry : tryToken ";" c.next = .ok (true, c.next.next.advance 1) := by
      rw [tryToken, bind_eq (get_eq _), heat]
      rfl
    rw [token, bind_eq htry]
    rfl
  refine ⟨mkNode "empty_statement" c.next.offset (c.next.next.advance 1).offset [],
    c.next.next.advance 1, ?_, tame_mkNode (by decide) _ _ (by simp), ?_⟩
  · rw [statementRule, bind_eq (toToken_eq c), bind_eq (get_eq _)]
    simp only [h]
    rw [bind_eq htoken, node_eq]
  · rw [Cursor.advance, hagain]
    rfl

theorem semicolon_behindNull {c : Cursor} {body cs : List Char}
    (hc : c.rest = ' ' :: behindComment body cs) (hbody : ¬ commentClosing <:+: body)
    (hbreaks : breaksOff true cs = true) (h : Calm true cs) :
    ∃ d, semicolon true c = .ok ((), d) ∧ d.rest.length ≤ c.rest.length ∧ Calm true d.rest := by
  obtain ⟨l, hl, hle, ⟨hended, hcalm⟩ | ⟨hended, more, hmore, hcalm⟩⟩ :=
    land_behind_null hc hbody hbreaks h
  · refine ⟨l.cursor, ?_, hle, hcalm⟩
    rw [semicolon, bind_eq (get_eq c)]
    simp only [hl, hended]
    rfl
  · refine ⟨l.cursor.advance 1, ?_, ?_, ?_⟩
    · have heat : l.cursor.eat? ";" = some (l.cursor.advance 1) := by
        rw [Cursor.eat?, hmore]
        rfl
      rw [semicolon, bind_eq (get_eq c)]
      simp only [hl, hended, heat]
      rfl
    · rw [hmore, List.length_cons] at hle
      simp only [Cursor.advance, hmore, List.drop_succ_cons, List.drop_zero]
      omega
    · simpa [Cursor.advance, hmore] using hcalm

/-- The next token of a calm text is a semicolon or a `null`, if there is one. -/
theorem Calm.next {c : Cursor} (h : Calm true c.rest) :
    Stands true c.next.rest ∧ c.next.rest.length ≤ c.rest.length := by
  obtain ⟨l, hl, hle, ⟨_, hends, _⟩ | ⟨_, hstands⟩⟩ :=
    h.walkGap_spec (!c.settled) (fun _ => false) true c.offset c.comments
  · exact absurd hends (by simp)
  · have hnext : c.next.rest = l.cursor.rest := by
      rw [Cursor.next, hl]
    rw [hnext]
    exact ⟨hstands, hle⟩

/-- One statement of a calm text is read, and what is left of the text is calm. -/
theorem Calm.statement {c : Cursor} (h : Calm true c.rest) (hmore : c.next.rest ≠ []) (n : Nat) :
    ∃ t d, (rules (n + 4)).statement c = .ok (t, d) ∧ t.Tame ∧
      d.rest.length < c.rest.length ∧ Calm true d.rest := by
  obtain ⟨hstands, hle⟩ := h.next
  generalize htext : c.next.rest = text at hstands hle hmore
  cases hstands with
  | nil => exact absurd rfl hmore
  | stop rest =>
    obtain ⟨t, d, hread, htame, rfl⟩ := statementRule_stop htext (n + 3) (rules (n + 3))
    exact ⟨t, d, hread, htame, hle, rest⟩
  | @null body cs hbody hbreaks rest =>
    refine statementRule_null htext ?_ (n + 2) n ?_
    · intro d hd
      obtain ⟨l, hl, _, ⟨hended, _⟩ | ⟨hended, more, hmore, _⟩⟩ :=
        land_behind_null hd hbody hbreaks rest
      · exact hl ▸ .inl hended
      · exact hl ▸ .inr ⟨hended, more, hmore⟩
    · intro d hd
      obtain ⟨d', hread, hshorter, hcalm⟩ := semicolon_behindNull hd hbody hbreaks rest
      refine ⟨d', hread, ?_, hcalm⟩
      simp only [hd, behindNull, List.length_cons] at hshorter hle
      omega

/-! ## Whole calm texts -/

theorem readStatements_calm (n : Nat) {fuel : Nat} {c : Cursor} {done : List ParseTree}
    (h : Calm true c.rest) (hfuel : c.rest.length < fuel) (hdone : ∀ t ∈ done, t.Tame) :
    ∃ ts d, readStatements (rules (n + 4)) fuel done c = .ok (ts, d) ∧ ∀ t ∈ ts, t.Tame := by
  induction fuel generalizing c done with
  | zero => omega
  | succ fuel ih =>
    rw [readStatements]
    by_cases hempty : c.next.rest = []
    · simp only [hempty, List.isEmpty_nil, if_true]
      exact ⟨_, _, rfl, by simpa using hdone⟩
    · obtain ⟨t, d, hread, htame, hshorter, hcalm⟩ := h.statement hempty n
      simp only [List.isEmpty_iff, hempty, if_false, hread]
      exact ih hcalm (by omega) (List.forall_mem_cons.mpr ⟨htame, hdone⟩)

theorem interpreterLine_calm {c : Cursor} (h : Calm true c.rest) : interpreterLine c = ([], c) := by
  have hnone : c.next.startsWith "#!" = false := by
    obtain ⟨hstands, _⟩ := h.next
    unfold Cursor.startsWith
    generalize c.next.rest = text at hstands
    cases hstands <;> rfl
  unfold interpreterLine
  simp only [hnone]
  rfl

theorem tame_programNode {ts : List ParseTree} (h : ∀ t ∈ ts, t.Tame) (length : Nat)
    (comments : List Comment) : (programNode length ts comments).Tame := by
  have hprogram : "program" ≠ "call_expression" := by decide
  have hwhole := tame_placeComments (tame_mkNode hprogram 0 length h) comments
  exact tame_mkNode hprogram _ _ ((ParseTree.tame_iff _).mp hwhole).2

/-- A calm text is read, and its tree is tame. -/
theorem read_calm {source : List Char} (h : Calm true source) :
    ∃ t, read source = .ok t ∧ t.Tame := by
  have hfuel : (Cursor.ofSource source).rest.length < depthFor source.length := by
    simp only [depthFor, Cursor.ofSource]
    omega
  have hdone : ∀ t ∈ ([] : List ParseTree), t.Tame := by simp
  obtain ⟨ts, d, hread, htame⟩ := readStatements_calm (4 * source.length + 60) h hfuel hdone
  refine ⟨_, ?_, tame_programNode htame d.offset d.comments.reverse⟩
  have hrules : rules (depthFor source.length) = rules (4 * source.length + 60 + 4) := rfl
  rw [read, interpreterLine_calm h]
  simp only [List.reverse_nil, hrules, hread]

end Script

/-- A calm text has a syntax tree, and no node of it is a call. -/
theorem exists_syntaxTree_of_calm {text : String} (h : Script.Calm true text.toList) :
    ∃ t, syntaxTree text = .ok t ∧ ∀ n ∈ t.nodes, n.isCall = false := by
  obtain ⟨t, hread, htame⟩ := Script.read_calm h
  have hparse : Script.parse text = t := by
    rw [Script.parse, hread]
  have hsound : ¬ t.hasFault = true := by
    rw [ParseTree.hasFault_iff]
    rintro ⟨n, hn, hfault⟩
    rw [(htame n hn).1] at hfault
    exact absurd hfault (by simp)
  refine ⟨t.converted text, ?_, fun n hn => htame.not_isCall text hn⟩
  change scriptTree text = _
  rw [scriptTree, hparse, if_neg hsound, ParseTree.toSyntax?,
    convertStack_eq_converted text t (Nat.le_refl _)]

end LogSweep
