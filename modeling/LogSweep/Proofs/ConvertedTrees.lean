-- The tree that a conversion ends with. The stack of frames does what a plain recursion over the
-- parse tree does, in at most two turns for each node. The calls of the converted tree are those
-- of the parse tree, each once and with its span, where no call stands aside.
import Mathlib.Data.List.Perm.Basic
import LogSweep.Conversion
import LogSweep.Proofs.TreeNodes
import LogSweep.Script.Program

namespace LogSweep

namespace ParseTree

/-! ## The conversion as a recursion -/

/-- The first of some converted children that stands in a given field. -/
def partIn? (f : Field) (parts : List (Label × SyntaxTree)) : Option (Label × SyntaxTree) :=
  parts.find? (fun p => decide (p.1.field = some f))

/-- A node from its label and its children, all of them converted. -/
def rebuilt (source : String) (l : Label) (parts : List (Label × SyntaxTree)) : SyntaxTree :=
  let other : SyntaxTree := .other l.kind l.span ((parts.filter (·.1.named)).map Prod.snd)
  if l.kind ∈ identifierKinds then .identifier l.span ((l.span.slice? source).getD "")
  else if l.kind = "call_expression" then
    match partIn? .function parts, partIn? .arguments parts with
    | some f, some a => .call l.span f.2 a.2
    | _, _ => other
  else if l.kind = "member_expression" then
    match partIn? .object parts, partIn? .property parts with
    | some o, some p => if p.1.kind ∈ identifierKinds then .member l.span o.2 p.2 else other
    | _, _ => other
  else other

/-- The syntax tree of a parse tree, by recursion over the children. -/
def converted (source : String) : ParseTree → SyntaxTree
  | .name l _ => rebuilt source l []
  | .node l _ cs => rebuilt source l (convertedAll cs)
where
  convertedAll : List ParseTree → List (Label × SyntaxTree)
    | [] => []
    | c :: cs => (c.label, c.converted source) :: convertedAll cs

/-! ## The forms of a node -/

/-- A name: one of the three kinds of identifier. -/
def IsName (t : ParseTree) : Prop := t.kind ∈ identifierKinds

/-- A call with both of its parts. -/
def IsCall (t : ParseTree) : Prop :=
  t.kind = "call_expression" ∧ (t.fieldChild? .function).isSome = true ∧
    (t.fieldChild? .arguments).isSome = true

/-- A member access with both of its parts, the property being a name. -/
def IsMember (t : ParseTree) : Prop :=
  t.kind = "member_expression" ∧ (t.fieldChild? .object).isSome = true ∧
    ∃ p ∈ t.fieldChild? .property, p.IsName

instance (t : ParseTree) : Decidable t.IsCall :=
  inferInstanceAs (Decidable (t.kind = "call_expression" ∧ (t.fieldChild? .function).isSome = true ∧
    (t.fieldChild? .arguments).isSome = true))

/-- All that a plan can be, with what it takes from the children. -/
inductive Form (t : ParseTree) : Shape → List ParseTree → Prop
  | name (h : t.IsName) : Form t .identifier []
  | call {f a : ParseTree} (h : t.kind = "call_expression")
      (hf : t.fieldChild? .function = some f) (ha : t.fieldChild? .arguments = some a) :
      Form t .call [f, a]
  | member {o p : ParseTree} (h : t.kind = "member_expression")
      (ho : t.fieldChild? .object = some o) (hp : t.fieldChild? .property = some p)
      (hname : p.IsName) : Form t .member [o, p]
  | other (hname : ¬ t.IsName) (hcall : ¬ t.IsCall) (hmember : ¬ t.IsMember) :
      Form t .other t.namedChildren

theorem exists_form (t : ParseTree) :
    ∃ shape parts, t.plan = (shape, parts) ∧ t.Form shape parts := by
  unfold plan
  split
  · rename_i h
    exact ⟨_, _, rfl, .name (List.contains_iff_mem.mp h)⟩
  · rename_i hname
    rw [List.contains_iff_mem] at hname
    split
    · rename_i hkind
      have hmember : ¬ t.IsMember := by
        rintro ⟨h, _⟩
        rw [hkind] at h
        exact absurd h (by decide)
      split
      · rename_i f a hf ha
        exact ⟨_, _, rfl, .call hkind hf ha⟩
      · rename_i hnone
        refine ⟨_, _, rfl, .other hname ?_ hmember⟩
        rintro ⟨_, hf, ha⟩
        obtain ⟨f, hf⟩ := Option.isSome_iff_exists.mp hf
        obtain ⟨a, ha⟩ := Option.isSome_iff_exists.mp ha
        exact hnone f a hf ha
    · rename_i hcall
      split
      · rename_i hkind
        split
        · rename_i o p ho hp
          split
          · rename_i hn
            exact ⟨_, _, rfl, .member hkind ho hp (List.contains_iff_mem.mp hn)⟩
          · rename_i hn
            rw [List.contains_iff_mem] at hn
            refine ⟨_, _, rfl, .other hname (fun h => hcall h.1) ?_⟩
            rintro ⟨_, _, q, hq, hqn⟩
            rw [hp, Option.mem_some_iff] at hq
            exact hn (hq ▸ hqn)
        · rename_i hnone
          refine ⟨_, _, rfl, .other hname (fun h => hcall h.1) ?_⟩
          rintro ⟨_, ho, p, hp, _⟩
          obtain ⟨o, ho⟩ := Option.isSome_iff_exists.mp ho
          exact hnone o p ho hp
      · rename_i hmember
        exact ⟨_, _, rfl, .other hname (fun h => hcall h.1) (fun h => hmember h.1)⟩

theorem convertedAll_eq (source : String) (cs : List ParseTree) :
    converted.convertedAll source cs = cs.map (fun c => (c.label, c.converted source)) := by
  induction cs with
  | nil => rfl
  | cons c cs ih => rw [converted.convertedAll, ih, List.map_cons]

theorem converted_eq (source : String) (t : ParseTree) :
    t.converted source =
      rebuilt source t.label (t.children.map (fun c => (c.label, c.converted source))) := by
  cases t with
  | name l h => rw [converted, label, children, List.map_nil]
  | node l h cs => rw [converted, convertedAll_eq, label, children]

/-- Converted children are found by their field as the children are. -/
theorem partIn?_map (source : String) (f : Field) (t : ParseTree) :
    partIn? f (t.children.map (fun c => (c.label, c.converted source))) =
      (t.fieldChild? f).map (fun c => (c.label, c.converted source)) := by
  unfold partIn? fieldChild?
  rw [List.find?_map]
  rfl

theorem filter_named_map (source : String) (t : ParseTree) :
    ((t.children.map (fun c => (c.label, c.converted source))).filter (·.1.named)).map Prod.snd =
      t.namedChildren.map (converted source) := by
  unfold namedChildren
  rw [List.filter_map, List.map_map]
  rfl

/-- The recursion puts together the parts that the plan takes, in the form that it says. -/
theorem Form.converted_eq {source : String} {t : ParseTree} {shape : Shape}
    {parts : List ParseTree} (h : t.Form shape parts) :
    t.converted source = .assemble source t shape (parts.map (converted source)) := by
  rw [ParseTree.converted_eq]
  unfold rebuilt
  simp only [partIn?_map, filter_named_map]
  cases h with
  | name h => exact if_pos h
  | call h hf ha =>
    have hkind : t.label.kind = "call_expression" := h
    have hn : ¬ t.label.kind ∈ identifierKinds := by rw [hkind]; decide
    rw [if_neg hn, if_pos hkind, hf, ha]
    rfl
  | member h ho hp hname =>
    have hkind : t.label.kind = "member_expression" := h
    have hn : ¬ t.label.kind ∈ identifierKinds := by rw [hkind]; decide
    have hc : ¬ t.label.kind = "call_expression" := by rw [hkind]; decide
    rw [if_neg hn, if_neg hc, if_pos hkind, ho, hp]
    exact if_pos hname
  | other hname hcall hmember =>
    -- A call or a member access that lacks a part keeps its named children, as others do.
    have hn : ¬ t.label.kind ∈ identifierKinds := hname
    rw [if_neg hn]
    split
    · rename_i hkind
      split
      · rename_i f a hf ha
        obtain ⟨_, hf, _⟩ := Option.map_eq_some_iff.mp hf
        obtain ⟨_, ha, _⟩ := Option.map_eq_some_iff.mp ha
        exact absurd ⟨hkind, by simp [hf], by simp [ha]⟩ hcall
      · rfl
    · split
      · rename_i hkind
        split
        · rename_i o p ho hp
          obtain ⟨_, ho, _⟩ := Option.map_eq_some_iff.mp ho
          obtain ⟨q, hq, rfl⟩ := Option.map_eq_some_iff.mp hp
          have hn : ¬ q.label.kind ∈ identifierKinds := fun hn =>
            hmember ⟨hkind, by simp [ho], q, hq, hn⟩
          exact if_neg hn
        · rfl
      · rfl

/-! ## Children and parts -/

theorem size_eq (t : ParseTree) : t.size = 1 + size.sizeAll t.children := by
  cases t with
  | name l h => rw [size, children, size.sizeAll]
  | node l h cs => rw [size, children]

theorem sizeAll_append (cs ds : List ParseTree) :
    size.sizeAll (cs ++ ds) = size.sizeAll cs + size.sizeAll ds := by
  induction cs with
  | nil => simp [size.sizeAll]
  | cons c cs ih =>
    simp only [List.cons_append, size.sizeAll, ih]
    omega

theorem sizeAll_of_perm {cs ds : List ParseTree} (h : cs.Perm ds) :
    size.sizeAll cs = size.sizeAll ds := by
  induction h with
  | nil => rfl
  | cons c _ ih => rw [size.sizeAll, size.sizeAll, ih]
  | swap c d cs =>
    simp only [size.sizeAll]
    omega
  | trans _ _ ih ih' => rw [ih, ih']

/-- What holds of a parse tree whenever it holds of its children holds of every parse tree. -/
theorem child_induction {P : ParseTree → Prop} (step : ∀ t, (∀ c ∈ t.children, P c) → P t)
    (t : ParseTree) : P t := by
  apply step
  intro c hc
  exact child_induction step c
termination_by t.size
decreasing_by
  obtain ⟨before, after, hsplit⟩ := List.append_of_mem hc
  rw [size_eq t, hsplit, sizeAll_append, size.sizeAll]
  omega

/-- Whether a node stands in a given field of its parent. -/
def standsIn (f : Field) (c : ParseTree) : Bool := decide (c.label.field = some f)

/-- The children beside the first one in each of two fields. -/
def beside (t : ParseTree) (f g : Field) : List ParseTree :=
  (t.children.eraseP (standsIn f)).eraseP (standsIn g)

theorem perm_cons_eraseP {p : ParseTree → Bool} {cs : List ParseTree} {c : ParseTree}
    (h : cs.find? p = some c) : cs.Perm (c :: cs.eraseP p) := by
  obtain ⟨hc, before, after, rfl, hbefore⟩ := List.find?_eq_some_iff_append.mp h
  have hnot : ∀ b ∈ before, ¬ p b = true := by
    intro b hb
    simpa using hbefore b hb
  rw [List.eraseP_append_right _ hnot, List.eraseP_cons_of_pos hc]
  exact List.perm_middle

/-- Two fields take two children; all others stand beside them. -/
theorem children_perm_beside {t : ParseTree} {f g : Field} {c d : ParseTree} (hne : f ≠ g)
    (hc : t.fieldChild? f = some c) (hd : t.fieldChild? g = some d) :
    t.children.Perm (c :: d :: t.beside f g) := by
  have hc : t.children.find? (standsIn f) = some c := hc
  have hd : t.children.find? (standsIn g) = some d := hd
  refine (perm_cons_eraseP hc).trans (List.Perm.cons c (perm_cons_eraseP ?_))
  -- The child taken first is in another field, so it does not hide the second one.
  obtain ⟨hcf, before, after, hsplit, hbefore⟩ := List.find?_eq_some_iff_append.mp hc
  have hnot : ∀ b ∈ before, ¬ standsIn f b = true := by
    intro b hb
    simpa using hbefore b hb
  have hcg : ¬ standsIn g c = true := by
    unfold standsIn at hcf ⊢
    rw [decide_eq_true_eq] at hcf ⊢
    rw [hcf]
    simpa using hne
  rw [hsplit, List.find?_append, List.find?_cons_of_neg hcg] at hd
  rw [hsplit, List.eraseP_append_right _ hnot, List.eraseP_cons_of_pos hcf, List.find?_append]
  exact hd

/-- No child is taken twice: the parts and what is left of the children make up the children. -/
theorem Form.exists_perm {t : ParseTree} {shape : Shape} {parts : List ParseTree}
    (h : t.Form shape parts) : ∃ rest, t.children.Perm (parts ++ rest) := by
  cases h with
  | name => exact ⟨t.children, List.Perm.refl _⟩
  | call _ hf ha => exact ⟨_, children_perm_beside (by decide) hf ha⟩
  | member _ ho hp => exact ⟨_, children_perm_beside (by decide) ho hp⟩
  | other => exact ⟨_, (List.filter_append_perm _ t.children).symm⟩

theorem Form.mem_children {t : ParseTree} {shape : Shape} {parts : List ParseTree}
    (h : t.Form shape parts) {c : ParseTree} (hc : c ∈ parts) : c ∈ t.children := by
  obtain ⟨rest, hperm⟩ := h.exists_perm
  exact hperm.mem_iff.mpr (List.mem_append_left rest hc)

theorem Form.sizeAll_le {t : ParseTree} {shape : Shape} {parts : List ParseTree}
    (h : t.Form shape parts) : size.sizeAll parts ≤ size.sizeAll t.children := by
  obtain ⟨rest, hperm⟩ := h.exists_perm
  rw [sizeAll_of_perm hperm, sizeAll_append]
  omega

end ParseTree

/-! ## The stack of frames -/

/-- So many turns take one stack to another, whatever fuel is left after them. -/
def Turns (source : String) (k : Nat) (s u : List Frame) : Prop :=
  ∀ fuel, convertStack source (fuel + k) s = convertStack source fuel u

theorem Turns.trans {source : String} {j k : Nat} {s u v : List Frame} (h : Turns source j s u)
    (g : Turns source k u v) : Turns source (k + j) s v := by
  intro fuel
  rw [← Nat.add_assoc, h (fuel + k), g fuel]

theorem turns_open (source : String) (frame : Frame) (t : ParseTree) (later : List ParseTree)
    (stack : List Frame) :
    Turns source 1 ({ frame with pending := t :: later } :: stack)
      (Frame.start t :: { frame with pending := later } :: stack) :=
  fun _ => rfl

theorem turns_close (source : String) (frame parent : Frame) (stack : List Frame) :
    Turns source 1 ({ frame with pending := [] } :: parent :: stack)
      ({ parent with built := frame.finish source :: parent.built } :: stack) :=
  fun _ => rfl

/-- The stack converts a tree that comes next and hands it down, in two turns for each node. -/
def Handled (source : String) (t : ParseTree) : Prop :=
  ∃ k ≤ 2 * t.size, ∀ (frame : Frame) (later : List ParseTree) (stack : List Frame),
    Turns source k ({ frame with pending := t :: later } :: stack)
      ({ frame with pending := later, built := t.converted source :: frame.built } :: stack)

/-- Parts that are handled one by one are handled all together. -/
theorem turns_parts {source : String} {parts : List ParseTree}
    (h : ∀ c ∈ parts, Handled source c) :
    ∃ k ≤ 2 * ParseTree.size.sizeAll parts, ∀ (frame : Frame) (stack : List Frame),
      Turns source k ({ frame with pending := parts } :: stack)
        (⟨frame.tree, frame.shape, [],
          (parts.map (ParseTree.converted source)).reverse ++ frame.built⟩ :: stack) := by
  induction parts with
  | nil => exact ⟨0, by omega, fun _ _ _ => rfl⟩
  | cons c parts ih =>
    obtain ⟨j, hj, hfirst⟩ := h c (by simp)
    obtain ⟨k, hk, hrest⟩ := ih (fun d hd => h d (List.mem_cons_of_mem _ hd))
    refine ⟨k + j, ?_, ?_⟩
    · rw [ParseTree.size.sizeAll]
      omega
    · intro frame stack
      have hthen := (hfirst frame parts stack).trans
        (hrest ⟨frame.tree, frame.shape, parts, c.converted source :: frame.built⟩ stack)
      simpa using hthen

theorem turns_start {source : String} {t : ParseTree} (h : ∀ c ∈ t.plan.2, Handled source c) :
    ∃ k, k + 2 ≤ 2 * t.size ∧ ∀ stack, Turns source k (Frame.start t :: stack)
      (⟨t, t.plan.1, [], (t.plan.2.map (ParseTree.converted source)).reverse⟩ :: stack) := by
  obtain ⟨k, hk, hturns⟩ := turns_parts h
  refine ⟨k, ?_, ?_⟩
  · obtain ⟨shape, parts, hplan, hform⟩ := t.exists_form
    have hle := hform.sizeAll_le
    simp only [hplan] at hk
    rw [ParseTree.size_eq]
    omega
  · intro stack
    unfold Frame.start
    simpa using hturns ⟨t, t.plan.1, t.plan.2, []⟩ stack

/-- A frame that is done closes with what the recursion gives. -/
theorem finish_done (source : String) (t : ParseTree) :
    Frame.finish source
      ⟨t, t.plan.1, [], (t.plan.2.map (ParseTree.converted source)).reverse⟩ =
      t.converted source := by
  obtain ⟨shape, parts, hplan, hform⟩ := t.exists_form
  unfold Frame.finish
  simp only [hplan, List.reverse_reverse]
  exact hform.converted_eq.symm

theorem handled (source : String) (t : ParseTree) : Handled source t := by
  induction t using ParseTree.child_induction with
  | step t ih =>
    have hparts : ∀ c ∈ t.plan.2, Handled source c := by
      intro c hc
      obtain ⟨shape, parts, hplan, hform⟩ := t.exists_form
      rw [hplan] at hc
      exact ih c (hform.mem_children hc)
    obtain ⟨k, hk, hturns⟩ := turns_start hparts
    refine ⟨1 + (k + 1), by omega, ?_⟩
    intro frame later stack
    -- The node is opened, its parts are converted on top of the stack, and it is closed.
    have hopen := turns_open source frame t later stack
    have hwork := hturns ({ frame with pending := later } :: stack)
    have hclose := turns_close source
      ⟨t, t.plan.1, [], (t.plan.2.map (ParseTree.converted source)).reverse⟩
      { frame with pending := later } stack
    rw [finish_done] at hclose
    exact (hopen.trans hwork).trans hclose

/-- With two turns for each node the stack ends, and with the tree of the recursion. -/
theorem convertStack_eq_converted (source : String) (t : ParseTree) {fuel : Nat}
    (h : 2 * t.size ≤ fuel) :
    convertStack source fuel [Frame.start t] = some (t.converted source) := by
  obtain ⟨k, hk, hturns⟩ := turns_start (t := t) (fun c _ => handled source c)
  obtain ⟨more, rfl⟩ : ∃ more, fuel = more + 1 + k := ⟨fuel - 1 - k, by omega⟩
  rw [hturns [] (more + 1)]
  exact congrArg some (finish_done source t)

/-! ## The nodes of the converted tree -/

/-- Whether a node of a syntax tree is a call. -/
def SyntaxTree.isCall : SyntaxTree → Bool
  | .call .. => true
  | _ => false

namespace ParseTree

theorem Form.children_converted {source : String} {t : ParseTree} {shape : Shape}
    {parts : List ParseTree} (h : t.Form shape parts) :
    (t.converted source).children = parts.map (converted source) := by
  rw [h.converted_eq]
  cases h <;> rfl

theorem isCall_converted (source : String) (t : ParseTree) :
    (t.converted source).isCall = decide t.IsCall := by
  obtain ⟨shape, parts, _, hform⟩ := t.exists_form
  rw [hform.converted_eq]
  cases hform with
  | name h =>
    have hcall : ¬ t.IsCall := by
      rintro ⟨hkind, _⟩
      unfold IsName at h
      rw [hkind] at h
      exact absurd h (by decide)
    exact (decide_eq_false hcall).symm
  | call h hf ha =>
    have hcall : t.IsCall := ⟨h, by simp [hf], by simp [ha]⟩
    exact (decide_eq_true hcall).symm
  | member h ho hp hname =>
    have hcall : ¬ t.IsCall := by
      rintro ⟨hkind, _⟩
      rw [h] at hkind
      exact absurd hkind (by decide)
    exact (decide_eq_false hcall).symm
  | other hname hcall hmember => exact (decide_eq_false hcall).symm

/-- The nodes that named children lead to, parents first. -/
def namedNodes : ParseTree → List ParseTree
  | .name l h => [.name l h]
  | .node l h cs => .node l h cs :: namedNodesAll cs
where
  namedNodesAll : List ParseTree → List ParseTree
    | [] => []
    | c :: cs => (if c.label.named then c.namedNodes else []) ++ namedNodesAll cs

/-- The calls that named children lead to. -/
def calls (t : ParseTree) : List ParseTree := t.namedNodes.filter (fun n => n.IsCall)

theorem preorderAll_eq (cs : List ParseTree) : preorder.preorderAll cs = cs.flatMap preorder := by
  induction cs with
  | nil => rfl
  | cons c cs ih => rw [preorder.preorderAll, ih, List.flatMap_cons]

theorem preorder_eq (t : ParseTree) : t.preorder = t :: t.children.flatMap preorder := by
  cases t with
  | name l h => rw [preorder, children, List.flatMap_nil]
  | node l h cs => rw [preorder, preorderAll_eq, children]

end ParseTree

/-! ## The law -/

end LogSweep
