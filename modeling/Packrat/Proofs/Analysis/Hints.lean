import Packrat.Proofs.Analysis.Clean
import Packrat.Proofs.Charset.Members
import Packrat.Proofs.Grammar.Heights
import Packrat.Proofs.Recognition.Fusion

/-! # What hints about neighbours suggest

A hint about a sequence or a choice says that one terminal could stand for two that are neighbours in it
(`Grammar.Suggests`): the joined text for two tokens, the set of the characters of both for two terminals that match
single characters. A grammar with that terminal in their place recognizes the same, rule for rule and at every depth.
-/

namespace Packrat

/-- Every set of characters can be written with intervals. -/
theorem Charset.exists_contains (p : Char → Bool) : ∃ s : Charset, ∀ c, s.contains c = p c := by
  obtain ⟨all, complete⟩ : ∃ all : List Char, ∀ c, c ∈ all := by
    refine ⟨(List.range 0x110000).map Char.ofNat, fun c => List.mem_map.mpr ⟨c.toNat, ?_, Char.ofNat_toNat c⟩⟩
    exact List.mem_range.mpr (Nat.lt_succ_of_le (le_lastChar c))
  refine ⟨ofIntervals ((all.filter p).map Interval.single), fun c => ?_⟩
  have ordered : ∀ i ∈ (all.filter p).map Interval.single, i.Ordered := by
    rintro _ member
    obtain ⟨d, -, rfl⟩ := List.mem_map.mp member
    exact Interval.ordered_single d
  rw [Bool.eq_iff_iff, contains_iff_covers (normal_ofIntervals ordered), covers_ofIntervals]
  constructor
  · rintro ⟨i, member, within⟩
    obtain ⟨d, listed, rfl⟩ := List.mem_map.mp member
    obtain rfl : d = c := Char.le_antisymm within.1 within.2
    exact (List.mem_filter.mp listed).2
  · intro accepted
    have member := List.mem_map_of_mem (f := Interval.single) (List.mem_filter.mpr ⟨complete c, accepted⟩)
    exact ⟨_, member, Char.le_refl c, Char.le_refl c⟩

/-- The part `fresh` in the place of the parts `k` and `k + 1` of a sequence or choice. -/
def Expr.fuse (k fresh : Nat) : Expr → Expr
  | sequence children => sequence (children.take k ++ fresh :: children.drop (k + 2))
  | choice children => choice (children.take k ++ fresh :: children.drop (k + 2))
  | e => e

/-- Neighbours in a sequence or choice could be one terminal. -/
def ProblemKind.ofNeighbours : ProblemKind → Bool
  | inefficientSequence | inefficientChoice => true
  | _ => false

namespace Grammar

/-- The terminal can stand for the parts `k` and `k + 1` of the expression `i`. -/
inductive Suggests (g : Grammar) (i k : Nat) : Terminal → Prop
  | tokens {before after : List Nat} {a b : Nat} {image image' : String} {caseSensitive : Bool}
      (sequence : g.expr? i = some (.sequence (before ++ a :: b :: after))) (place : before.length = k)
      (first : g.expr? a = some (.terminal (.token image caseSensitive)))
      (second : g.expr? b = some (.terminal (.token image' caseSensitive))) :
      Suggests g i k (.token (image ++ image') caseSensitive)
  | characters {before after : List Nat} {a b : Nat} {t u : Terminal} {members : Charset}
      (choice : g.expr? i = some (.choice (before ++ a :: b :: after))) (place : before.length = k)
      (first : g.expr? a = some (.terminal t)) (second : g.expr? b = some (.terminal u))
      (determined : t.isDetermined = true) (determined' : u.isDetermined = true)
      (union : ∀ c, members.contains c = (t.admits c || u.admits c)) : Suggests g i k (.set members)

theorem Suggests.present {g : Grammar} {i k : Nat} {t : Terminal} (suggests : g.Suggests i k t) :
    ∃ e, g.expr? i = some e := by
  cases suggests with
  | tokens sequence => exact ⟨_, sequence⟩
  | characters choice => exact ⟨_, choice⟩

/-- The grammar with the terminal `t` in the place of the parts `k` and `k + 1` of the expression `i`. -/
def merge (g : Grammar) (i k : Nat) (t : Terminal) : Grammar :=
  let owner := (g.nodes[i]?.map Node.owner).getD 0
  let nodes := g.nodes.modify i fun node => { node with expr := node.expr.fuse k g.nodes.size }
  { g with nodes := nodes.push { expr := .terminal t, owner, parent := some i } }

variable {g : Grammar} {i j k : Nat} {t : Terminal} {e : Expr}

theorem expr?_merge_fresh : (g.merge i k t).expr? g.nodes.size = some (.terminal t) := by
  rw [expr?, merge, Array.getElem?_push, if_pos Array.size_modify.symm]
  rfl

theorem expr?_merge_other (old : j ≠ g.nodes.size) (other : j ≠ i) : (g.merge i k t).expr? j = g.expr? j := by
  simp [expr?, merge, Array.getElem?_push, Array.getElem?_modify, old, other.symm]

theorem expr?_merge_self (present : g.expr? i = some e) :
    (g.merge i k t).expr? i = some (e.fuse k g.nodes.size) := by
  have inside : i ≠ g.nodes.size := Nat.ne_of_lt (lt_size_of_expr? present)
  obtain ⟨node, here, rfl⟩ := node_of_expr? present
  simp [expr?, merge, Array.getElem?_push, Array.getElem?_modify, inside, here]

/-- A leaf of a tree is a terminal of the grammar. -/
private theorem expr?_of_terminal? {body : Tree} (shown : g.tree? i = some body) (leaf : body.terminal? = some t) :
    g.expr? i = some (.terminal t) := by
  obtain ⟨e, present, layer⟩ := tree?_eq_some_iff.mp shown
  cases layer with
  | terminal =>
    cases leaf
    exact present
  | _ => cases leaf

private theorem exists_neighbours {related : Terminal → Terminal → Bool} {children : List Nat} {items : List Tree}
    (parts : List.Forall₂ (fun child body => g.tree? child = some body) children items)
    (near : Tree.hasNeighbours related items = true) :
    ∃ before a b after t u, children = before ++ a :: b :: after ∧ g.expr? a = some (.terminal t) ∧
      g.expr? b = some (.terminal u) ∧ related t u = true := by
  induction parts with
  | nil => cases near
  | @cons a x children items head rest ih =>
    cases rest with
    | nil => cases near
    | @cons b y children items next rest =>
      rw [Tree.hasNeighbours, Bool.or_eq_true] at near
      rcases near with here | later
      · split at here
        · next t u leaf leaf' =>
          exact ⟨[], a, b, children, t, u, rfl, expr?_of_terminal? head leaf, expr?_of_terminal? next leaf', here⟩
        · cases here
      · obtain ⟨before, c, d, after, t, u, split, first, second, near⟩ := ih later
        exact ⟨a :: before, c, d, after, t, u, congrArg (a :: ·) split, first, second, near⟩

private theorem suggests_of_tokens {children : List Nat} {items : List Tree}
    (present : g.expr? i = some (.sequence children))
    (parts : List.Forall₂ (fun child body => g.tree? child = some body) children items)
    (near : Tree.hasNeighbours Tree.sameCaseTokens items = true) : ∃ k t, g.Suggests i k t := by
  obtain ⟨before, a, b, after, t, u, rfl, first, second, alike⟩ := exists_neighbours parts near
  unfold Tree.sameCaseTokens at alike
  split at alike
  · obtain rfl := beq_iff_eq.mp alike
    exact ⟨_, _, .tokens present rfl first second⟩
  · cases alike

private theorem suggests_of_determined {children : List Nat} {items : List Tree}
    (present : g.expr? i = some (.choice children))
    (parts : List.Forall₂ (fun child body => g.tree? child = some body) children items)
    (near : Tree.hasNeighbours Tree.bothDetermined items = true) : ∃ k t, g.Suggests i k t := by
  obtain ⟨before, a, b, after, t, u, rfl, first, second, both⟩ := exists_neighbours parts near
  obtain ⟨determined, determined'⟩ := Bool.and_eq_true_iff.mp both
  obtain ⟨members, union⟩ := Charset.exists_contains fun c => t.admits c || u.admits c
  exact ⟨_, _, .characters present rfl first second determined determined' union⟩

private theorem ofNeighbours_terminalFindings {f : Finding} (found : f ∈ Tree.terminalFindings j t) :
    ¬ f.kind.ofNeighbours = true := by
  unfold Tree.terminalFindings at found
  split at found
  · cases found
  · split_ifs at found
    · cases List.mem_singleton.mp found
      exact Bool.false_ne_true
    · cases found
  · split_ifs at found
    · cases List.mem_singleton.mp found
      exact Bool.false_ne_true
    · cases List.mem_singleton.mp found
      exact Bool.false_ne_true
    · cases found

/-- Where an expression has a hint about neighbours, there are some for which a terminal can stand. -/
private theorem suggests_of_finding {tree : Tree} (shown : g.tree? j = some tree) : ∀ f ∈ tree.findings g,
    f.kind.ofNeighbours = true → f.rule = .expression i → ∃ k t, g.Suggests i k t := by
  refine tree?_induction (motive := fun _ tree => ∀ f ∈ tree.findings g, f.kind.ofNeighbours = true →
    f.rule = .expression i → ∃ k t, g.Suggests i k t) ?_ shown
  intro j e tree present layer f found hint here
  have below {children : List Nat} {items : List Tree} (parts : List.Forall₂ (fun child body =>
      g.tree? child = some body ∧ ∀ f ∈ body.findings g, f.kind.ofNeighbours = true → f.rule = .expression i →
        ∃ k t, g.Suggests i k t) children items) (found : f ∈ Tree.allFindings g items) : ∃ k t, g.Suggests i k t := by
    obtain ⟨body, listed, found⟩ := Tree.mem_allFindings.mp found
    obtain ⟨child, -, part⟩ := Tree.exists_related parts.flip listed
    exact part.2 f found hint here
  cases layer with
  | terminal => exact absurd hint (ofNeighbours_terminalFindings found)
  | @reference target memo =>
    rw [Tree.findings] at found
    split at found
    · split at found
      · cases found
      · cases List.mem_singleton.mp found
        cases hint
    · cases found
  | @action child name bound body part =>
    rcases List.mem_append.mp found with own | inner
    · split at own
      · cases own
      · cases List.mem_singleton.mp own
        cases hint
    · exact part.2 f inner hint here
  | undo part => exact part.2 f found hint here
  | sequence parts =>
    rcases List.mem_append.mp found with inner | own
    · exact below parts inner
    · split at own
      · next near =>
        cases List.mem_singleton.mp own
        cases here
        exact suggests_of_tokens present (parts.imp fun _ _ part => part.1) near
      · cases own
  | choice parts =>
    rcases List.mem_append.mp found with inner | own
    · exact below parts inner
    · split at own
      · next near =>
        cases List.mem_singleton.mp own
        cases here
        exact suggests_of_determined present (parts.imp fun _ _ part => part.1) near
      · cases own
  | repetition part => exact part.2 f found hint here
  | lookahead part => exact part.2 f found hint here

/-- A hint about neighbours has something to suggest. -/
theorem exists_suggests {o : Options} {problem : Problem} (reported : problem ∈ g.localProblems o)
    (hint : problem.kind.ofNeighbours = true) (here : problem.rule = some (.expression i)) :
    ∃ k t, g.Suggests i k t := by
  obtain ⟨f, found, shown⟩ := List.mem_filterMap.mp reported
  obtain ⟨p, -, found⟩ := List.mem_flatMap.mp found
  have same : problem.kind = f.kind ∧ problem.rule = some f.rule := by
    unfold Options.problem? at shown
    split at shown <;> cases shown
    exact ⟨rfl, rfl⟩
  rw [same.1] at hint
  rw [same.2, Option.some.injEq] at here
  rw [productionFindings, List.append_assoc] at found
  rcases List.mem_append.mp found with own | found
  · split at own
    · cases List.mem_singleton.mp own
      cases hint
    · cases own
  · rcases List.mem_append.mp found with own | found
    · split at own
      · cases List.mem_singleton.mp own
        cases hint
      · cases own
    · cases shown : g.tree? p.root with
      | none =>
        rw [shown] at found
        cases found
      | some tree =>
        rw [shown] at found
        exact suggests_of_finding shown f found hint here

end Grammar

/-- The answer without what was observed. -/
def Reduction.unobserved {H S τ : Type} (reduction : Reduction H S τ) : Reduction H S Unit :=
  reduction.image id fun _ => ()

/-- A look at the text, if there is a level left for it. -/
def Reduction.lookingWithin {H S τ : Type} (depth : Nat) (look : Stream → Bool × Stream) (st : State H S τ) :
    Reduction H S τ :=
  match depth with
  | 0 => .error .tooDeep
  | _ + 1 => looking look st

namespace Recognizer

variable {H S τ : Type} {i k a depth : Nat} {t : Terminal}

/-- Reduces a rule as if `fold` folded case. -/
def reduceFolding (fold : Char → Char) (r : Recognizer H S τ) : (depth : Nat) → Rule → State H S τ → Reduction H S τ :=
  r.reduceBy (Terminal.recognizeFolding fold)

theorem reduceFolding_foldCase (r : Recognizer H S τ) : r.reduceFolding Unicode.foldCase = r.reduce := by
  rw [reduceFolding, Terminal.recognizeFolding_foldCase, reduceBy_recognize]

section

variable {r : Recognizer H S Unit} {fold : Char → Char}

theorem reduceFolding_terminal (present : r.grammar.expr? a = some (.terminal t)) (depth : Nat) :
    r.reduceFolding fold depth (.expression a) = Reduction.lookingWithin depth (t.recognizeFolding fold) := by
  funext st
  cases depth with
  | zero => rfl
  | succ depth =>
    simp only [reduceFolding, reduceBy, present, observing_unit, expressionBy]
    rfl

/-- What is suggested for an expression does what the expression does. -/
private theorem expressionBy_fuse (suggests : r.grammar.Suggests i k t) {e : Expr} {fresh : Nat}
    (present : r.grammar.expr? i = some e) {sub : Rule → State H S Unit → Reduction H S Unit}
    (old : ∀ a ∈ e.children, r.reduceFolding fold depth (.expression a) = sub (.expression a))
    (new : sub (.expression fresh) = Reduction.lookingWithin depth (t.recognizeFolding fold)) :
    r.expressionBy (Terminal.recognizeFolding fold) sub i (e.fuse k fresh) =
      r.expressionBy (Terminal.recognizeFolding fold) (r.reduceFolding fold depth) i e := by
  cases suggests with
  | @tokens before after a b image image' caseSensitive sequence place first second =>
    cases present.symm.trans sequence
    subst place
    have fused (st : State H S Unit) : Reduction.Alike
        ((r.reduceFolding fold depth (.expression a) st).andThen (r.reduceFolding fold depth (.expression b)))
        (sub (.expression fresh) st) := by
      rw [reduceFolding_terminal first, reduceFolding_terminal second, new]
      cases depth with
      | zero => exact .same _
      | succ depth =>
        have joined := Reduction.accept_fused (Terminal.sameFolding fold caseSensitive) image.toList image'.toList st
        rwa [← String.toList_append] at joined
    have shape : (Expr.sequence (before ++ a :: b :: after)).fuse before.length fresh =
        .sequence (before ++ fresh :: after) := by
      simp [Expr.fuse]
    rw [shape]
    exact (Reduction.marked_alike (Reduction.inSequence_fused (α := Nat) fused
      (fun c member => old c (List.mem_append_left _ member))
      fun c member => old c (List.mem_append_right _ (.tail _ (.tail _ member))))).symm
  | @characters before after a b t u members choice place first second determined determined' union =>
    cases present.symm.trans choice
    subst place
    have fused (st : State H S Unit) :
        (Reduction.marked (r.reduceFolding fold depth (.expression a)) st).otherwise
          (Reduction.marked (r.reduceFolding fold depth (.expression b))) =
            Reduction.marked (sub (.expression fresh)) st := by
      rw [reduceFolding_terminal first, reduceFolding_terminal second, new]
      cases depth with
      | zero => rfl
      | succ depth =>
        rw [Terminal.recognizeFolding_determined _ determined, Terminal.recognizeFolding_determined _ determined']
        exact Reduction.determined_fused determined determined' union st
    have shape : (Expr.choice (before ++ a :: b :: after)).fuse before.length fresh =
        .choice (before ++ fresh :: after) := by
      simp [Expr.fuse]
    rw [shape]
    exact (Reduction.inOrder_fused (α := Nat) fused
      (fun c member => old c (List.mem_append_left _ member))
      fun c member => old c (List.mem_append_right _ (.tail _ (.tail _ member)))).symm

theorem reduceFolding_merge (wellFormed : r.grammar.WellFormed) (suggests : r.grammar.Suggests i k t) (depth : Nat)
    {rule : Rule} (old : rule ≠ .expression r.grammar.nodes.size) :
    (r.withGrammar (r.grammar.merge i k t)).reduceFolding fold depth rule = r.reduceFolding fold depth rule := by
  have inside {j : Nat} {e : Expr} (present : r.grammar.expr? j = some e) :
      Rule.expression j ≠ .expression r.grammar.nodes.size := by
    rintro ⟨⟩
    exact Nat.lt_irrefl _ (Grammar.lt_size_of_expr? present)
  induction depth generalizing rule with
  | zero => rfl
  | succ depth ih =>
    funext st
    cases rule with
    | production index =>
      have here : (r.withGrammar (r.grammar.merge i k t)).grammar.root? index = r.grammar.root? index := rfl
      simp only [reduceFolding, reduceBy, observing_unit, here]
      cases defined : r.grammar.root? index with
      | none => rfl
      | some root =>
        obtain ⟨e, present⟩ := wellFormed.expr?_root defined
        exact congrFun (congrArg Reduction.marked (ih (inside present))) st
    | expression j =>
      have part {e : Expr} (present : r.grammar.expr? j = some e) (child : Nat) (member : child ∈ e.children) :
          r.reduceFolding fold depth (.expression child) =
            (r.withGrammar (r.grammar.merge i k t)).reduceFolding fold depth (.expression child) := by
        obtain ⟨e', present'⟩ := wellFormed.expr?_child present member
        exact (ih (inside present')).symm
      simp only [reduceFolding, reduceBy, observing_unit]
      by_cases same : j = i
      · subst same
        obtain ⟨e, present⟩ := suggests.present
        have here : (r.withGrammar (r.grammar.merge j k t)).grammar.expr? j = some (e.fuse k r.grammar.nodes.size) :=
          Grammar.expr?_merge_self present
        have fresh : (r.withGrammar (r.grammar.merge j k t)).grammar.expr? r.grammar.nodes.size = some (.terminal t) :=
          Grammar.expr?_merge_fresh
        simp only [here, present, expressionBy_withGrammar]
        exact congrFun (expressionBy_fuse suggests present (part present) (reduceFolding_terminal fresh depth)) st
      · have here : (r.withGrammar (r.grammar.merge i k t)).grammar.expr? j = r.grammar.expr? j :=
          Grammar.expr?_merge_other (fun last => old (congrArg _ last)) same
        rw [here]
        cases present : r.grammar.expr? j with
        | none => rfl
        | some e =>
          simp only [expressionBy_withGrammar]
          exact congrFun (expressionBy_congr (fun child member => (part present child member).symm)
            fun index => ih Rule.noConfusion) st

end

/-- What a hint about neighbours suggests can be done: with the one terminal in their place, every rule of the grammar
has the same answer as before, whatever folds case. -/
theorem neighbours_merged (r : Recognizer H S τ) (wellFormed : r.grammar.WellFormed) (i : Nat) :
    (∀ o, ∀ problem ∈ r.grammar.localProblems o, problem.kind.ofNeighbours = true →
      problem.rule = some (.expression i) → ∃ k t, r.grammar.Suggests i k t) ∧
    ∀ k t, r.grammar.Suggests i k t → ∀ depth rule, rule ≠ .expression r.grammar.nodes.size → ∀ st,
      ((r.withGrammar (r.grammar.merge i k t)).reduce depth rule st).unobserved = (r.reduce depth rule st).unobserved ∧
      ∀ fold, ((r.withGrammar (r.grammar.merge i k t)).reduceFolding fold depth rule st).unobserved =
        (r.reduceFolding fold depth rule st).unobserved := by
  refine ⟨fun o problem reported hint here => Grammar.exists_suggests reported hint here, ?_⟩
  intro k t suggests depth rule old st
  have merged (fold : Char → Char) :
      ((r.withGrammar (r.grammar.merge i k t)).reduceFolding fold depth rule st).unobserved =
        (r.reduceFolding fold depth rule st).unobserved := by
    have same : ((r.withObserver .silent).withGrammar (r.grammar.merge i k t)).reduceFolding fold depth rule =
        (r.withObserver .silent).reduceFolding fold depth rule :=
      reduceFolding_merge wellFormed suggests depth old
    have first := (r.withGrammar (r.grammar.merge i k t)).projects_silent.reduceBy (Terminal.recognizeFolding fold)
      depth rule st
    have second := r.projects_silent.reduceBy (Terminal.recognizeFolding fold) depth rule st
    exact first.trans ((congrFun same _).trans second.symm)
  refine ⟨?_, merged⟩
  have folded := merged Unicode.foldCase
  rwa [reduceFolding_foldCase, reduceFolding_foldCase] at folded

end Recognizer

namespace Sample

/-- `S : 'a' 'b' / 'c' / 'd'-'f' ;` -/
def joinable : Grammar where
  productions := #[{ name := "S", index := 0, root := 0, defined := true }]
  nodes := #[
    { expr := .choice [1, 4, 5], owner := 0 },
    { expr := .sequence [2, 3], owner := 0, parent := some 0 },
    { expr := .terminal (.token "a" true), owner := 0, parent := some 1 },
    { expr := .terminal (.token "b" true), owner := 0, parent := some 1 },
    { expr := .terminal (.token "c" true), owner := 0, parent := some 0 },
    { expr := .terminal (.interval ⟨'d', 'f'⟩), owner := 0, parent := some 0 }]
  problems := []
  source := none

def joiner : Recognizer Unit Unit Unit where
  grammar := joinable
  transaction := .stateless Unit
  handlers := .empty
  observer := .silent
  memoize := false

def cToF : Charset := .ofIntervals [.single 'c', ⟨'d', 'f'⟩]

/-- Both neighbours are reported, and each pair of them can be joined. -/
theorem joinable_merged : joinable.WellFormed ∧
    (joinable.localProblems {}).map (fun problem => (problem.kind, problem.rule)) =
      [(.inefficientSequence, some (.expression 1)), (.inefficientChoice, some (.expression 0))] ∧
    joinable.Suggests 1 0 (.token ("a" ++ "b") true) ∧ joinable.Suggests 0 1 (.set cToF) ∧
    ∀ depth st,
      ((joiner.withGrammar (joinable.merge 1 0 (.token ("a" ++ "b") true))).reduce depth (.production 0) st).unobserved =
        (joiner.reduce depth (.production 0) st).unobserved ∧
      ((joiner.withGrammar (joinable.merge 0 1 (.set cToF))).reduce depth (.production 0) st).unobserved =
        (joiner.reduce depth (.production 0) st).unobserved := by
  have wellFormed : joiner.grammar.WellFormed := Grammar.wellFormed_of_linked (by decide)
  have tokens : joinable.Suggests 1 0 (.token ("a" ++ "b") true) :=
    @Grammar.Suggests.tokens joinable 1 0 [] [] 2 3 "a" "b" true rfl rfl rfl rfl
  have union (c : Char) : cToF.contains c =
      ((Terminal.token "c" true).admits c || (Terminal.interval ⟨'d', 'f'⟩).admits c) := by
    have image : (Terminal.token "c" true).admits c = true ↔ (Interval.single 'c').contains c = true := by
      rw [Interval.contains_single]
      change (['c'] == [c]) = true ↔ c = 'c'
      rw [beq_iff_eq, List.singleton_inj, eq_comm]
    rw [Bool.eq_iff_iff, Bool.or_eq_true, image, cToF, Charset.contains_iff_covers (Charset.normal_ofIntervals (by decide)),
      Charset.covers_ofIntervals, Charset.covers_cons, Charset.covers_cons]
    simp [Terminal.admits, Interval.contains_iff]
  have characters : joinable.Suggests 0 1 (.set cToF) :=
    @Grammar.Suggests.characters joinable 0 1 [1] [] 4 5 _ _ cToF rfl rfl rfl rfl rfl rfl union
  refine ⟨wellFormed, by decide +kernel, tokens, characters, fun depth st => ⟨?_, ?_⟩⟩
  · exact ((joiner.neighbours_merged wellFormed 1).2 0 _ tokens depth (.production 0) Rule.noConfusion st).1
  · exact ((joiner.neighbours_merged wellFormed 0).2 1 _ characters depth (.production 0) Rule.noConfusion st).1

end Sample

end Packrat
