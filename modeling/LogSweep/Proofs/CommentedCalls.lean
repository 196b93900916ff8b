-- Comments and matching. A comment among the arguments of a call, or anywhere else in it, does not
-- count, with one exception: between the parentheses of a link of the callee it takes the place of
-- a second child, and the chain of names breaks there. So a tree without its comments shows every
-- call that the tree shows, and it may show more.
import LogSweep.Proofs.SweepShape

namespace LogSweep

namespace SyntaxTree

/-! ## Trees without comments -/

def isComment : SyntaxTree → Bool
  | .other "comment" _ _ => true
  | _ => false

mutual

/-- The tree without the comments among its children, at any depth. Spans stay as they are. -/
def withoutComments : SyntaxTree → SyntaxTree
  | .call s f a => .call s f.withoutComments a.withoutComments
  | .member s o p => .member s o.withoutComments p.withoutComments
  | .identifier s n => .identifier s n
  | .other k s cs => .other k s (withoutCommentsAll cs)

def withoutCommentsAll : List SyntaxTree → List SyntaxTree
  | [] => []
  | c :: cs =>
    if c.isComment then withoutCommentsAll cs else c.withoutComments :: withoutCommentsAll cs

end

mutual

/-- The nodes outside of comments, in source order and parents first. -/
def plainNodes : SyntaxTree → List SyntaxTree
  | .call s f a => .call s f a :: (f.plainNodes ++ a.plainNodes)
  | .member s o p => .member s o p :: (o.plainNodes ++ p.plainNodes)
  | .identifier s n => [.identifier s n]
  | .other k s cs => .other k s cs :: plainNodesAll cs

def plainNodesAll : List SyntaxTree → List SyntaxTree
  | [] => []
  | c :: cs => if c.isComment then plainNodesAll cs else c.plainNodes ++ plainNodesAll cs

end

/-- Whether no parenthesised link of a chain holds a comment. -/
def bareLinks : SyntaxTree → Bool
  | .member _ object _ => object.bareLinks
  | .other "parenthesized_expression" _ [inner] => !inner.isComment && inner.bareLinks
  | .other "parenthesized_expression" _ cs => !cs.any isComment
  | _ => true

/-- Whether no parenthesised link of the callee holds a comment. -/
def bareCallee (t : SyntaxTree) : Bool := t.callee?.all bareLinks

/-- The children that are left without comments, before anything is taken out of them. -/
def plainChildren : SyntaxTree → List SyntaxTree
  | .other _ _ cs => cs.filter (fun c => !c.isComment)
  | t => t.children

theorem withoutCommentsAll_eq (cs : List SyntaxTree) :
    withoutCommentsAll cs = (cs.filter (fun c => !c.isComment)).map withoutComments := by
  induction cs with
  | nil => rfl
  | cons c cs ih => by_cases hc : c.isComment <;> simp [withoutCommentsAll, hc, ih]

theorem plainNodesAll_eq (cs : List SyntaxTree) :
    plainNodesAll cs = (cs.filter (fun c => !c.isComment)).flatMap plainNodes := by
  induction cs with
  | nil => rfl
  | cons c cs ih => by_cases hc : c.isComment <;> simp [plainNodesAll, hc, ih]

theorem plainNodes_eq (t : SyntaxTree) :
    t.plainNodes = t :: t.plainChildren.flatMap plainNodes := by
  cases t <;> simp [plainNodes, plainChildren, children, plainNodesAll_eq]

theorem mem_plainNodes_self (t : SyntaxTree) : t ∈ t.plainNodes := by
  rw [plainNodes_eq]
  exact List.mem_cons_self

@[simp] theorem span_withoutComments (t : SyntaxTree) : t.withoutComments.span = t.span := by
  cases t <;> rfl

@[simp] theorem name?_withoutComments (t : SyntaxTree) : t.withoutComments.name? = t.name? := by
  cases t <;> rfl

theorem children_withoutComments (t : SyntaxTree) :
    t.withoutComments.children = t.plainChildren.map withoutComments := by
  cases t <;> simp [withoutComments, plainChildren, children, withoutCommentsAll_eq]

theorem plainChildren_sublist (t : SyntaxTree) : t.plainChildren.Sublist t.children := by
  cases t with
  | other k s cs => exact List.filter_sublist
  | call => exact List.Sublist.refl _
  | member => exact List.Sublist.refl _
  | identifier => exact List.Sublist.refl _

theorem mem_plainChildren {t c : SyntaxTree} (hc : c ∈ t.children) (h : c.isComment = false) :
    c ∈ t.plainChildren := by
  cases t with
  | other k s cs => exact List.mem_filter.mpr ⟨hc, by simp [h]⟩
  | call => exact hc
  | member => exact hc
  | identifier => exact hc

/-- Outside of comments, the nodes of the two trees stand side by side. -/
theorem nodes_withoutComments (t : SyntaxTree) :
    t.withoutComments.nodes = t.plainNodes.map withoutComments := by
  induction t using child_induction with
  | step t ih =>
    rw [nodes_eq, plainNodes_eq, children_withoutComments, List.map_cons, List.flatMap_map,
      List.map_flatMap]
    congr 1
    apply List.flatMap_congr
    intro c hc
    exact ih c (t.plainChildren_sublist.subset hc)

/-! ## Chains of names -/

theorem ofTree?_of_isComment {t : SyntaxTree} (h : t.isComment = true) :
    MemberChain.ofTree? t = none := by
  cases t with
  | other k s cs =>
    have hk : k = "comment" := by
      by_contra hne
      simp [isComment, hne] at h
    exact MemberChain.ofTree?_other_of_ne (by rw [hk]; decide) s cs
  | call => simp [isComment] at h
  | member => simp [isComment] at h
  | identifier => simp [isComment] at h

/-- A chain is read as without comments, unless a comment stands between its parentheses. -/
theorem ofTree?_withoutComments (t : SyntaxTree) :
    MemberChain.ofTree? t =
      if t.bareLinks then MemberChain.ofTree? t.withoutComments else none := by
  induction t using child_induction with
  | step t ih =>
    cases t with
    | call => simp [MemberChain.ofTree?, withoutComments]
    | identifier => simp [bareLinks, withoutComments]
    | member s object property =>
      have hobject := ih object (by simp [children])
      simp only [MemberChain.ofTree?_member, withoutComments, bareLinks, name?_withoutComments,
        hobject]
      cases object.bareLinks <;> simp
    | other k s cs =>
      by_cases hk : k = "parenthesized_expression"
      · subst hk
        simp only [withoutComments, MemberChain.ofTree?_parenthesized, withoutCommentsAll_eq]
        rcases cs with _ | ⟨inner, _ | ⟨next, cs⟩⟩
        · simp
        · have hinner := ih inner (by simp [children])
          by_cases hcomment : inner.isComment
          · simp [bareLinks, hcomment, ofTree?_of_isComment hcomment]
          · simpa [bareLinks, hcomment] using hinner
        · -- Two children are no link, and without comments they are still two.
          by_cases hany : (inner :: next :: cs).any isComment
          · have hbare : bareLinks (.other "parenthesized_expression" s (inner :: next :: cs)) =
                false := by rw [bareLinks, hany, Bool.not_true]; simp
            simp [hbare]
          · have hkeep : (inner :: next :: cs).filter (fun c => !c.isComment) =
                inner :: next :: cs := by
              rw [List.filter_eq_self]
              simpa using hany
            simp [hkeep]
      · simp [withoutComments, MemberChain.ofTree?_other_of_ne hk]

/-! ## Calls -/

theorem matchedCall?_withoutComments (targets : TargetSet) (t : SyntaxTree) :
    matchedCall? targets t =
      if t.bareCallee then matchedCall? targets t.withoutComments else none := by
  cases t with
  | call s f a =>
    simp only [matchedCall?, withoutComments, bareCallee, callee?, Option.all_some,
      ofTree?_withoutComments f]
    by_cases hbare : f.bareLinks <;> simp [hbare]
  | member => simp [matchedCall?, withoutComments]
  | identifier => simp [matchedCall?, withoutComments]
  | other => simp [matchedCall?, withoutComments]

theorem Targeted.withoutComments {targets : TargetSet} {t : SyntaxTree}
    (h : t.Targeted targets) : t.withoutComments.Targeted targets := by
  have hfound := matchedCall?_eq_some_iff.mpr ⟨h, rfl⟩
  rw [matchedCall?_withoutComments] at hfound
  split at hfound
  · exact (matchedCall?_eq_some_iff.mp hfound).1
  · simp at hfound

/-! ## Comments that hide nothing -/

/-- No comment has a targeted call inside it. -/
def QuietComments (targets : TargetSet) (t : SyntaxTree) : Prop :=
  ∀ c ∈ t.nodes, c.isComment = true → ∀ n ∈ c.nodes, ¬ n.Targeted targets

/-- No comment stands between the parentheses of a callee that is targeted without it. -/
def BareCallees (targets : TargetSet) (t : SyntaxTree) : Prop :=
  ∀ n ∈ t.plainNodes, n.withoutComments.Targeted targets → n.bareCallee = true

instance (targets : TargetSet) (t : SyntaxTree) : Decidable (t.QuietComments targets) :=
  inferInstanceAs (Decidable (∀ c ∈ t.nodes, c.isComment = true →
    ∀ n ∈ c.nodes, ¬ n.Targeted targets))

instance (targets : TargetSet) (t : SyntaxTree) : Decidable (t.BareCallees targets) :=
  inferInstanceAs (Decidable (∀ n ∈ t.plainNodes, n.withoutComments.Targeted targets →
    n.bareCallee = true))

theorem QuietComments.child {targets : TargetSet} {t c : SyntaxTree} (h : t.QuietComments targets)
    (hc : c ∈ t.children) : c.QuietComments targets :=
  fun d hd => h d (mem_nodes_of_child hc hd)

theorem BareCallees.child {targets : TargetSet} {t c : SyntaxTree} (h : t.BareCallees targets)
    (hc : c ∈ t.plainChildren) : c.BareCallees targets := by
  intro n hn
  apply h
  rw [plainNodes_eq]
  exact List.mem_cons_of_mem _ (List.mem_flatMap.mpr ⟨c, hc, hn⟩)

theorem BareCallees.matchedCall?_eq {targets : TargetSet} {t n : SyntaxTree}
    (h : t.BareCallees targets) (hn : n ∈ t.plainNodes) :
    matchedCall? targets n = matchedCall? targets n.withoutComments := by
  rw [matchedCall?_withoutComments]
  split
  · rfl
  · rename_i hbare
    symm
    rw [matchedCall?_eq_none_iff]
    exact fun ht => hbare (h n hn ht)

/-- A targeted call stands outside of comments. -/
theorem QuietComments.mem_plainNodes {targets : TargetSet} {t n : SyntaxTree}
    (h : t.QuietComments targets) (hn : n ∈ t.nodes) (hnt : n.Targeted targets) :
    n ∈ t.plainNodes := by
  induction t using child_induction with
  | step t ih =>
    rw [nodes_eq, List.mem_cons, List.mem_flatMap] at hn
    rw [plainNodes_eq, List.mem_cons, List.mem_flatMap]
    rcases hn with rfl | ⟨c, hc, hn⟩
    · exact Or.inl rfl
    · right
      have hplain : c.isComment = false := by
        rw [Bool.eq_false_iff]
        intro hcomment
        exact h c (mem_nodes_of_child hc c.mem_nodes_self) hcomment n hn hnt
      exact ⟨c, mem_plainChildren hc hplain, ih c hc (h.child hc) hn⟩

/-! ## The walk level by level -/

/-- `thin` is `queue` without some trees in which nothing is targeted, and without the comments of
the others. -/
inductive Thinned (targets : TargetSet) : List SyntaxTree → List SyntaxTree → Prop
  | nil : Thinned targets [] []
  | drop {c : SyntaxTree} {queue thin : List SyntaxTree} :
      (∀ n ∈ c.nodes, ¬ n.Targeted targets) → Thinned targets queue thin →
      Thinned targets (c :: queue) thin
  | keep {c : SyntaxTree} {queue thin : List SyntaxTree} :
      c.QuietComments targets → c.BareCallees targets → Thinned targets queue thin →
      Thinned targets (c :: queue) (c.withoutComments :: thin)

theorem Thinned.append {targets : TargetSet} {queue thin queue' thin' : List SyntaxTree}
    (h : Thinned targets queue thin) (h' : Thinned targets queue' thin') :
    Thinned targets (queue ++ queue') (thin ++ thin') := by
  induction h with
  | nil => exact h'
  | drop hdead _ ih => exact Thinned.drop hdead ih
  | keep hquiet hbare _ ih => exact Thinned.keep hquiet hbare ih

/-- A list of trees is thinned by a choice of those to keep. -/
theorem Thinned.ofChoice {targets : TargetSet} {cs : List SyntaxTree} (keeps : SyntaxTree → Bool)
    (hdrop : ∀ c ∈ cs, keeps c = false → ∀ n ∈ c.nodes, ¬ n.Targeted targets)
    (hquiet : ∀ c ∈ cs, c.QuietComments targets)
    (hbare : ∀ c ∈ cs.filter keeps, c.BareCallees targets) :
    Thinned targets cs ((cs.filter keeps).map withoutComments) := by
  induction cs with
  | nil => exact Thinned.nil
  | cons c cs ih =>
    have hrest := ih (fun d hd => hdrop d (List.mem_cons_of_mem _ hd))
      (fun d hd => hquiet d (List.mem_cons_of_mem _ hd))
    by_cases hc : keeps c = true
    · rw [List.filter_cons_of_pos hc] at hbare ⊢
      exact Thinned.keep (hquiet c (by simp)) (hbare c (by simp))
        (hrest (fun d hd => hbare d (List.mem_cons_of_mem _ hd)))
    · rw [List.filter_cons_of_neg hc] at hbare ⊢
      exact Thinned.drop (hdrop c (by simp) (by simpa using hc)) (hrest hbare)

/-- A tree in which nothing is targeted leaves nothing. -/
theorem Thinned.children_of_dead {targets : TargetSet} {t : SyntaxTree}
    (h : ∀ n ∈ t.nodes, ¬ n.Targeted targets) : Thinned targets t.children [] := by
  have hdead : ∀ c ∈ t.children, ∀ n ∈ c.nodes, ¬ n.Targeted targets :=
    fun c hc n hn => h n (mem_nodes_of_child hc hn)
  have hnone := Thinned.ofChoice (fun _ => false) (fun c hc _ => hdead c hc)
    (fun c hc d hd _ n hn => hdead c hc n (mem_nodes_trans hd hn)) (by simp)
  simpa using hnone

/-- The children of a tree are thinned to those of the tree without comments. -/
theorem Thinned.children {targets : TargetSet} {t : SyntaxTree} (hquiet : t.QuietComments targets)
    (hbare : t.BareCallees targets) : Thinned targets t.children t.withoutComments.children := by
  have hall : t.plainChildren = t.children →
      Thinned targets t.children (t.plainChildren.map withoutComments) := by
    intro heq
    have hkeep := Thinned.ofChoice (fun _ => true) (by simp) (fun c hc => hquiet.child hc)
      (fun c hc => hbare.child (by simpa [heq] using hc))
    simpa [heq] using hkeep
  rw [children_withoutComments]
  cases t with
  | other k s cs =>
    refine Thinned.ofChoice _ ?_ (fun c hc => hquiet.child hc) (fun c hc => hbare.child hc)
    intro c hc hcomment
    exact hquiet c (mem_nodes_of_child hc c.mem_nodes_self) (by simpa using hcomment)
  | call => exact hall rfl
  | member => exact hall rfl
  | identifier => exact hall rfl

/-- What is found along a queue is found along the thin one, in the same order. Whatever leaves
the front of one queue with a call leaves the front of the other. -/
theorem Thinned.filterMap_walkQueue {targets : TargetSet} {queue thin : List SyntaxTree}
    (h : Thinned targets queue thin) (n m : Nat) (hn : sizeAll queue ≤ n) (hm : sizeAll thin ≤ m) :
    (walkQueue n queue).filterMap (matchedCall? targets) =
      (walkQueue m thin).filterMap (matchedCall? targets) := by
  induction n generalizing m queue thin with
  | zero =>
    cases h with
    | nil => cases m <;> rfl
    | drop => rw [sizeAll, size_eq] at hn; omega
    | keep => rw [sizeAll, size_eq] at hn; omega
  | succ n ih =>
    cases h with
    | nil => cases m <;> rfl
    | @drop c queue _ hdead hrest =>
      rw [sizeAll, size_eq] at hn
      rw [walkQueue, List.filterMap_cons_none
        (matchedCall?_eq_none_iff.mpr (hdead c c.mem_nodes_self))]
      refine ih ?_ m (by rw [sizeAll_append]; omega) hm
      simpa using hrest.append (Thinned.children_of_dead hdead)
    | @keep c queue thin hquiet hbare hrest =>
      rw [sizeAll, size_eq] at hn hm
      obtain ⟨m, rfl⟩ : ∃ k, m = k + 1 := ⟨m - 1, by omega⟩
      have hnext := ih (hrest.append (Thinned.children hquiet hbare)) m
        (by rw [sizeAll_append]; omega) (by rw [sizeAll_append]; omega)
      have hsame := hbare.matchedCall?_eq c.mem_plainNodes_self
      rw [walkQueue, walkQueue, List.filterMap_cons, List.filterMap_cons, hsame, hnext]

end SyntaxTree

/-! ## What is found -/

open SyntaxTree in
/-- Leaving comments out hides no call: what is found lies inside what is found without them. -/
theorem SyntaxTree.QuietComments.exists_contains {targets : TargetSet} {t : SyntaxTree}
    (h : t.QuietComments targets) {s : Span} (hs : s ∈ findMatches t.breadthFirst targets) :
    ∃ u ∈ findMatches t.withoutComments.breadthFirst targets, u.contains s = true := by
  obtain ⟨n, hn, hnt, rfl⟩ := exists_targeted_of_mem_findMatches hs
  have hplain := h.mem_plainNodes (t.breadthFirst_perm.mem_iff.mp hn) hnt
  have hmem : n.withoutComments ∈ t.withoutComments.breadthFirst := by
    rw [t.withoutComments.breadthFirst_perm.mem_iff, nodes_withoutComments]
    exact List.mem_map_of_mem hplain
  obtain ⟨u, hu, hin⟩ := exists_findMatches_contains hmem hnt.withoutComments
  exact ⟨u, hu, by simpa using hin⟩

open SyntaxTree in
/-- Where comments hide nothing, the same spans are found without them. -/
theorem SyntaxTree.QuietComments.findMatches_eq {targets : TargetSet} {t : SyntaxTree}
    (hquiet : t.QuietComments targets) (hbare : t.BareCallees targets) :
    findMatches t.breadthFirst targets = findMatches t.withoutComments.breadthFirst targets := by
  have hthin := Thinned.keep hquiet hbare Thinned.nil
  have hwalk := hthin.filterMap_walkQueue t.size t.withoutComments.size (by simp [sizeAll])
    (by simp [sizeAll])
  rw [findMatches, findMatches, breadthFirst, breadthFirst, hwalk]

/-! ## The law -/

open SyntaxTree in
/-- A tree and the tree without its comments have the same nodes outside of comments. A call is
matched in the one as in the other, unless a comment stands between the parentheses of a link of
its callee; then it is not matched. With no targeted call inside a comment, what is found in the
tree lies inside what is found without comments, and where no comment stands between such
parentheses the same spans are found. -/
theorem only_a_comment_between_parentheses_hides_a_call (t : SyntaxTree) (targets : TargetSet) :
    t.withoutComments.nodes = t.plainNodes.map withoutComments ∧
    (∀ n : SyntaxTree, matchedCall? targets n =
      if n.bareCallee then matchedCall? targets n.withoutComments else none) ∧
    (t.QuietComments targets →
      (∀ s ∈ findMatches t.breadthFirst targets,
        ∃ u ∈ findMatches t.withoutComments.breadthFirst targets, u.contains s = true) ∧
      (t.BareCallees targets →
        findMatches t.breadthFirst targets =
          findMatches t.withoutComments.breadthFirst targets)) := by
  refine ⟨t.nodes_withoutComments, matchedCall?_withoutComments targets, fun hquiet => ⟨?_, ?_⟩⟩
  · exact fun s hs => hquiet.exists_contains hs
  · exact hquiet.findMatches_eq

/-- A comment before the method and one among the arguments hide nothing. -/
theorem a_log_with_comments_is_found :
    ∃ t, syntaxTree "(console)./* a */log(/* b */ 1)" = .ok t ∧ t.QuietComments .standard ∧
      t.BareCallees .standard ∧ findMatches t.breadthFirst .standard = [⟨0, 31⟩] ∧
      findMatches t.withoutComments.breadthFirst .standard = [⟨0, 31⟩] := by
  obtain ⟨t, ht, hquiet, hbare, hfound⟩ : ∃ t,
      syntaxTree "(console)./* a */log(/* b */ 1)" = .ok t ∧ t.QuietComments .standard ∧
      t.BareCallees .standard ∧ findMatches t.breadthFirst .standard = [⟨0, 31⟩] := by
    decide +kernel
  have hlaw := only_a_comment_between_parentheses_hides_a_call t .standard
  exact ⟨t, ht, hquiet, hbare, hfound, (hlaw.2.2 hquiet).2 hbare ▸ hfound⟩

/-- Comments count after all: a comment next to a name between parentheses hides the call, also in
a tree that is read from a source. -/
theorem a_comment_between_parentheses_hides_a_log :
    ¬ ∀ (source : String) (t : SyntaxTree) (targets : TargetSet), syntaxTree source = .ok t →
      (∀ n ∈ t.plainNodes, matchedCall? targets n = some n.span ↔
        matchedCall? targets n.withoutComments = some n.span) ∧
      findMatches t.breadthFirst targets = findMatches t.withoutComments.breadthFirst targets := by
  intro hclaim
  obtain ⟨t, ht, hmissed, hfound⟩ : ∃ t, syntaxTree "(/* c */ console).log(1)" = .ok t ∧
      findMatches t.breadthFirst .standard = [] ∧
      findMatches t.withoutComments.breadthFirst .standard = [⟨0, 24⟩] := by decide +kernel
  have hsame := (hclaim _ t .standard ht).2
  rw [hmissed, hfound] at hsame
  simp at hsame

end LogSweep
