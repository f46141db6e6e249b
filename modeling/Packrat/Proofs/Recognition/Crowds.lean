import Packrat.Proofs.Analysis.StableBits
import Packrat.Proofs.Memo
import Packrat.Proofs.Recognition.Run

/-! # Grammars with more productions than keys

The key of a memo table has room for 2^32 productions. In a grammar with more of them two productions share their keys,
and a reference to one of them takes the remembered match of the other for its own: it matches nothing although its
production is sure to consume a character.
-/

namespace Packrat.Sample

def crowdNode (last : Expr) (n : Nat) : Nat → Node
  | 0 => { expr := .sequence [1, 2, 3], owner := 0 }
  | 1 => { expr := .reference 1 true, owner := 0, parent := some 0 }
  | 2 => { expr := .reference n true, owner := 0, parent := some 0 }
  | 3 => { expr := last, owner := 0, parent := some 0 }
  | 4 => { expr := .terminal .nil, owner := 1 }
  | k + 5 => { expr := .terminal (.token "b" true), owner := k + 2 }

def crowdProduction : Nat → Production
  | 0 => { name := "S", index := 0, root := 0, defined := true }
  | k + 1 => { name := "P" ++ toString (k + 1), index := k + 1, root := k + 4, defined := true }

/-- `S : @P1 @Pn last ; P1 : '' ; P2 : 'b' ; … Pn : 'b' ;` -/
def crowdBefore (last : Expr) (n : Nat) : Grammar where
  productions := (Array.range (n + 1)).map crowdProduction
  nodes := (Array.range (n + 4)).map (crowdNode last n)
  problems := []
  source := none

variable {last : Expr} {m n i : Nat}

theorem size_crowd : (crowdBefore last n).productions.size = n + 1 := by
  simp [crowdBefore]

theorem crowd_productions {p : Production} :
    (crowdBefore last n).productions[i]? = some p ↔ i < n + 1 ∧ crowdProduction i = p := by
  simp only [crowdBefore, Array.getElem?_map, Array.getElem?_range, Option.map_eq_some_iff,
    Option.ite_none_right_eq_some]
  grind

theorem crowd_nodes {node : Node} :
    (crowdBefore last n).nodes[i]? = some node ↔ i < n + 4 ∧ crowdNode last n i = node := by
  simp only [crowdBefore, Array.getElem?_map, Array.getElem?_range, Option.map_eq_some_iff,
    Option.ite_none_right_eq_some]
  grind

private theorem children_crowdNode (leaf : last.children = []) :
    (crowdNode last n i).expr.children = if i = 0 then [1, 2, 3] else [] := by
  rcases i with _ | _ | _ | _ | _ | k
  case succ.succ.succ.zero => exact leaf
  all_goals rfl

theorem crowd_wellFormed (some : 0 < n) (leaf : last.children = [])
    (target : ∀ {index memo}, last = .reference index memo → index ≤ n) : (crowdBefore last n).WellFormed := by
  constructor
  case index =>
    intro i p found
    obtain ⟨-, rfl⟩ := crowd_productions.mp found
    cases i <;> rfl
  case root =>
    intro i p found
    obtain ⟨inside, rfl⟩ := crowd_productions.mp found
    rcases i with _ | _ | k
    · exact ⟨_, crowd_nodes.mpr ⟨Nat.succ_pos _, rfl⟩, rfl, rfl⟩
    · exact ⟨_, crowd_nodes.mpr ⟨Nat.lt_add_of_pos_left some, rfl⟩, rfl, rfl⟩
    · have rooted : k + 5 < n + 4 := by omega
      exact ⟨_, crowd_nodes.mpr ⟨rooted, rfl⟩, rfl, rfl⟩
  case part =>
    intro i child node found member
    obtain ⟨inside, rfl⟩ := crowd_nodes.mp found
    rw [children_crowdNode leaf] at member
    split at member
    · next start =>
      subst start
      simp only [List.mem_cons, List.not_mem_nil, or_false] at member
      rcases member with rfl | rfl | rfl
      all_goals exact ⟨_, crowd_nodes.mpr ⟨by omega, rfl⟩, rfl, rfl⟩
    · cases member
  case owner =>
    intro i node found
    obtain ⟨inside, rfl⟩ := crowd_nodes.mp found
    rw [size_crowd]
    rcases i with _ | _ | _ | _ | _ | k
    all_goals simp only [crowdNode]
    all_goals omega
  case target =>
    intro i index memo found
    obtain ⟨node, here, same⟩ := Grammar.node_of_expr? found
    obtain ⟨inside, rfl⟩ := crowd_nodes.mp here
    rw [size_crowd]
    rcases i with _ | _ | _ | _ | _ | k
    case succ.succ.succ.zero => exact Nat.lt_succ_of_le (target same)
    all_goals cases same
    all_goals omega
  case distinct =>
    intro i node _ found
    obtain ⟨inside, rfl⟩ := crowd_nodes.mp found
    rw [children_crowdNode leaf]
    split
    · decide
    · exact List.nodup_nil

theorem crowd_expr (inside : i < m + 6) :
    (crowdBefore last (m + 2)).expr? i = some (crowdNode last (m + 2) i).expr :=
  Grammar.expr?_of_node (crowd_nodes.mpr ⟨inside, rfl⟩)

theorem crowd_root (inside : i < m + 3) : (crowdBefore last (m + 2)).root? i = some (crowdProduction i).root := by
  rw [Grammar.root?, crowd_productions.mpr ⟨inside, rfl⟩, Option.map_some]

/-- The reference to the last production is sure to consume a character. -/
theorem crowd_consumes (wellFormed : (crowdBefore last (m + 2)).WellFormed) :
    (crowdBefore last (m + 2)).ruleConsumes (.expression 2) = true := by
  have start : (crowdBefore last (m + 2)).Rooted 0 := .root (crowd_root (Nat.succ_pos _))
  have far : (crowdBefore last (m + 2)).root? (m + 2) = some (m + 5) := crowd_root (by omega)
  have sequence : (crowdBefore last (m + 2)).expr? 0 = some (.sequence [1, 2, 3]) := crowd_expr (by omega)
  have stable := wellFormed.stable_ruleConsumes
  have reference := stable.expression (start.child sequence (show 2 ∈ [1, 2, 3] by decide)) (crowd_expr (by omega))
  have production := stable.production far
  have letter := stable.expression (.root far) (crowd_expr (by omega))
  exact reference.trans (production.trans (letter.trans (show Terminal.consumes (.token "b" true) = true by decide)))

variable {H S τ : Type} {r : Recognizer H S τ} {st : State H S τ}

/-- A match of nothing is remembered for the second production where the stream is. -/
def Empties (st : State H S τ) : Prop :=
  (st.memo.get? 1 st.stream.position.offset).map Memo.Entry.length = some 0

/-- Nothing else is remembered for it there. -/
def Begins (st : State H S τ) : Prop := st.memo.get? 1 st.stream.position.offset = none ∨ Empties st

section

variable (crowded : r.grammar = crowdBefore last (m + 2)) (memoized : r.memoize = true)

include crowded memoized

/-- The second production matches nothing, and that is remembered. -/
theorem crowd_stores (begins : Begins st) :
    ∃ st', r.Runs (.rule (.expression 1)) st .matched st' ∧ st'.stream.position = st.stream.position ∧ Empties st' := by
  have reference : r.grammar.expr? 1 = some (.reference 1 true) := by
    rw [crowded]
    exact crowd_expr (by omega)
  rcases begins with missing | empties
  · have near : r.grammar.root? 1 = some 4 := by
      rw [crowded]
      exact crowd_root (by omega)
    have nothing : r.grammar.expr? 4 = some (.terminal .nil) := by
      rw [crowded]
      exact crowd_expr (by omega)
    refine ⟨_, .expression reference (.store memoized missing (.production near (.marked
      (.expression nothing .terminal)))), rfl, ?_⟩
    exact (congrArg (Option.map Memo.Entry.length) (Memo.Table.get?_insert_self ..)).trans
      (congrArg some (Nat.sub_self _))
  · obtain ⟨⟨_, snapshot⟩, found, rfl⟩ := Option.map_eq_some_iff.mp empties
    exact ⟨_, .expression reference (.hit memoized found), rfl, empties⟩

/-- The last production takes that match for its own, if the keys are the same. -/
theorem crowd_recalls (congruent : (m + 2) % UInt32.size = 1) (empties : Empties st) :
    ∃ st', r.Runs (.rule (.expression 2)) st .matched st' ∧ st'.stream.position = st.stream.position ∧ Empties st' := by
  have reference : r.grammar.expr? 2 = some (.reference (m + 2) true) := by
    rw [crowded]
    exact crowd_expr (by omega)
  obtain ⟨⟨_, snapshot⟩, found, rfl⟩ := Option.map_eq_some_iff.mp empties
  have taken : st.memo.get? (m + 2) st.stream.position.offset = some ⟨0, snapshot⟩ := by
    rw [← Memo.Table.get?_mod, congruent, found]
  exact ⟨_, .expression reference (.hit memoized taken), rfl, empties⟩

end

end Packrat.Sample
