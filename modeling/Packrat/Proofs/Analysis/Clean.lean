import Packrat.Recognition.Parser
import Packrat.Proofs.Analysis.LeftCycles

/-! # Clean grammars

A compiled grammar is usable exactly if it is clean: nothing went wrong while it was read, its productions are told
apart and its expressions can match, and no production left-calls itself. The passes agree with their sum, because a
pass never takes back an error. The expressions that are looked at are those within reach of a root, no more and no
less.
-/

namespace Packrat

/-- A terminal that is not at fault. The empty text stands for an empty right-hand side. -/
def Terminal.Matchable : Terminal → Prop
  | .token image _ => image ≠ ""
  | .set members => members.intervals ≠ #[]
  | .charClass named => named.isUndefined = false
  | .nil | .any | .interval _ => True

/-- The expression is not at fault by itself: its terminal can match, or its target is defined. -/
def Expr.Wholesome (g : Grammar) : Expr → Prop
  | .terminal t => t.Matchable
  | .reference target _ => ∀ p, g.productions[target]? = some p → p.defined = true
  | _ => True

/-- Nothing is wrong with the grammar. -/
structure Grammar.Clean (g : Grammar) : Prop where
  read : ∀ problem ∈ g.problems, problem.rule = none → problem.severity ≠ .fatal ∧ problem.severity ≠ .error
  inhabited : g.productions ≠ #[]
  distinct : ∀ {index : Nat} {p : Production}, g.productions[index]? = some p → p.duplicated = false
  wholesome : ∀ {i : Nat} {e : Expr}, g.Rooted i → g.expr? i = some e → e.Wholesome g
  ascending : ∀ p, ¬ Relation.TransGen g.CallsLeft p p

namespace Problems

variable {ps qs : Problems}

theorem hasErrors_append : (ps ++ qs).hasErrors = (ps.hasErrors || qs.hasErrors) := List.any_append

theorem hasErrors_sort : ps.sort.hasErrors = ps.hasErrors := (List.mergeSort_perm ps _).any_eq

theorem hasErrors_eq_false : ps.hasErrors = false ↔ ∀ p ∈ ps, p.severity ≠ .fatal ∧ p.severity ≠ .error := by
  have blocking (s : Severity) : ¬ s.isBlocking = true ↔ s ≠ .fatal ∧ s ≠ .error := by cases s <;> decide
  simp only [hasErrors, List.any_eq_false, blocking]

end Problems

namespace Grammar

variable {g : Grammar} {problems : Problems} {o : Options} {i index : Nat}

/-- Two passes are one if the second does not take back an error of the first. -/
theorem outcome_andThen {next : Grammar → Grammar} (keeps : g.hasErrors = true → (next g).hasErrors = true) :
    g.outcome.andThen (fun g => (next g).outcome) = (next g).outcome := by
  unfold outcome
  cases faulty : g.hasErrors with
  | false => rfl
  | true => simp only [keeps faulty, if_true, Compiled.andThen, Compiled.grammar]

theorem addProblems_keeps (found : Problems) (faulty : g.hasErrors = true) :
    (g.addProblems found).hasErrors = true := by
  rw [hasErrors, addProblems, Problems.hasErrors_append]
  exact (congrArg (· || found.hasErrors) faulty).trans (Bool.true_or _)

theorem rootTrees_with_problems : { g with problems }.rootTrees = g.rootTrees := by
  simp only [rootTrees, tree?, unfold_with_problems]

end Grammar

mutual

private theorem Tree.findings_with_problems (g : Grammar) (problems : Problems) (t : Tree) :
    t.findings { g with problems } = t.findings g := by
  cases t with
  | terminal => rfl
  | reference => rfl
  | action id name bound body => rw [findings, findings, findings_with_problems g problems body]
  | undo id body => rw [findings, findings, findings_with_problems g problems body]
  | sequence id items => rw [findings, findings, allFindings_with_problems g problems items]
  | choice id items => rw [findings, findings, allFindings_with_problems g problems items]
  | repetition id min max body => rw [findings, findings, findings_with_problems g problems body]
  | lookahead id sign body => rw [findings, findings, findings_with_problems g problems body]

private theorem Tree.allFindings_with_problems (g : Grammar) (problems : Problems) (items : List Tree) :
    allFindings { g with problems } items = allFindings g items := by
  cases items with
  | nil => rfl
  | cons t rest =>
    rw [allFindings, allFindings, findings_with_problems g problems t, allFindings_with_problems g problems rest]

end

namespace Grammar

variable {g : Grammar} {problems : Problems} {o : Options} {i index : Nat}

theorem localProblems_with_problems : { g with problems }.localProblems o = g.localProblems o := by
  have same (p : Production) : { g with problems }.productionFindings p = g.productionFindings p := by
    simp only [productionFindings, tree?, unfold_with_problems, funext (Tree.findings_with_problems g problems)]
  simp only [localProblems, localFindings, funext same]
  rfl

theorem leftRecursionProblems_with_problems :
    { g with problems }.leftRecursionProblems o = g.leftRecursionProblems o := by
  simp only [leftRecursionProblems, leftCycles, leftCallTable, consumingProductions, rootTrees_with_problems]
  rfl

/-- What a compiled grammar reports, in the order it is listed. -/
def compiledProblems (g : Grammar) (o : Options) : Problems :=
  Problems.sort <|
    g.problems.unbound ++ g.clearRuleProblems.emptyProblems ++
    (if o.localAnalysis then g.localProblems o else []) ++
    (if o.leftRecursion then g.leftRecursionProblems o else [])

/-- The verdicts of the passes agree with the verdict on all that is found. -/
theorem compile_eq : g.compile o = { g with problems := g.compiledProblems o }.outcome := by
  have required (g : Grammar) : g.hasErrors = true → g.requireProduction.hasErrors = true := addProblems_keeps _
  have analysed (g : Grammar) : g.hasErrors = true → (g.analyseRules o).hasErrors = true := addProblems_keeps _
  have searched (g : Grammar) : g.hasErrors = true → (g.analyseLeftRecursion o).hasErrors = true := addProblems_keeps _
  have sorted (g : Grammar) : g.hasErrors = true → g.sortProblems.hasErrors = true := Problems.hasErrors_sort.trans
  have start (pass : Grammar → Compiled) : (Compiled.usable g).andThen pass = pass g := rfl
  rw [compile, start, outcome_andThen (required _), outcome_andThen (analysed _), outcome_andThen (searched _),
    outcome_andThen (sorted _)]
  simp only [sortProblems, analyseLeftRecursion, analyseRules, requireProduction, addProblems, clearRuleProblems,
    localProblems_with_problems, leftRecursionProblems_with_problems]
  rfl

end Grammar

/-- What a grammar cannot be used with. -/
def Finding.Blocks (f : Finding) : Prop := f.kind.severity.isBlocking = true

theorem Finding.mild_of_mem {warning : Finding} {shown : Bool} (mild : warning.kind.severity.isBlocking = false) :
    ∀ f ∈ if shown then [warning] else [], ¬ f.Blocks := by
  intro f member
  split at member
  · rw [List.mem_singleton.mp member]
    exact Bool.eq_false_iff.mp mild
  · cases member

/-- No option leaves an error out. -/
theorem Finding.problems_hasErrors {g : Grammar} {o : Options} {findings : List Finding} :
    (problems o g findings).hasErrors = false ↔ ∀ f ∈ findings, ¬ f.Blocks := by
  simp only [Problems.hasErrors, List.any_eq_false, problems, List.mem_filterMap, forall_exists_index, and_imp]
  constructor
  · intro clean f member blocks
    have reported : o.reports f.kind.severity = true := by
      revert blocks
      unfold Blocks
      cases f.kind.severity <;> simp [Severity.isBlocking, Options.reports]
    exact clean _ f member (if_pos reported) blocks
  · intro clean p f member shown
    unfold Options.problem? at shown
    split at shown
    · cases shown
      exact clean f member
    · cases shown

namespace Tree

/-- No finding in the tree is an error. -/
def Faultless (g : Grammar) (t : Tree) : Prop := ∀ f ∈ t.findings g, ¬ f.Blocks

variable {g : Grammar} {branch : Nat → Tree → Prop} {i : Nat} {e : Expr} {t : Tree}

theorem mem_allFindings {f : Finding} {items : List Tree} :
    f ∈ allFindings g items ↔ ∃ t ∈ items, f ∈ t.findings g := by
  induction items with
  | nil => simp [allFindings]
  | cons t rest ih => simp [allFindings, ih]

/-- Terminals that can be simplified get a hint. -/
theorem terminalFindings_faultless {t : Terminal} : (∀ f ∈ terminalFindings i t, ¬ f.Blocks) ↔ t.Matchable := by
  have general (other : ∀ k, t ≠ .charClass k) (visible : t ≠ .nil) :
      (∀ f ∈ terminalFindings i t, ¬ f.Blocks) ↔ t.isEmpty = false := by
    unfold terminalFindings
    cases t with
    | nil => exact absurd rfl visible
    | charClass k => exact absurd rfl (other k)
    | _ =>
      dsimp only
      split_ifs with empty inefficient <;> simp_all [Finding.Blocks, ProblemKind.severity, Severity.isBlocking]
  cases t with
  | nil => simp [terminalFindings, Terminal.Matchable]
  | any => simp [general, Terminal.isEmpty, Terminal.Matchable]
  | token image caseSensitive => simp [general, Terminal.isEmpty, Terminal.Matchable]
  | interval => simp [general, Terminal.isEmpty, Terminal.Matchable]
  | set members => simp [general, Terminal.isEmpty, Terminal.Matchable, Charset.isEmpty, Charset.size]
  | charClass k =>
    cases undefined : k.isUndefined <;>
      simp [terminalFindings, Terminal.Matchable, undefined, Finding.Blocks, ProblemKind.severity, Severity.isBlocking]

/-- A finding about neighbours is a hint. -/
private theorem faultless_of_hint {items : List Tree} {neighbours : Bool} {hint : Finding}
    (mild : hint.kind.severity.isBlocking = false) :
    (∀ f ∈ allFindings g items ++ (if neighbours then [hint] else []), ¬ f.Blocks) ↔ ∀ t ∈ items, t.Faultless g := by
  rw [List.forall_mem_append, and_iff_left (Finding.mild_of_mem mild)]
  simp only [mem_allFindings, forall_exists_index, and_imp, Faultless]
  exact ⟨fun inner t member f => inner f t member, fun inner f t member => inner t member f⟩

/-- A tree is faultless if its root and its branches are. -/
theorem Layer.faultless_iff (layer : Layer (fun child body => g.tree? child = some body) i e t) :
    t.Faultless g ↔ e.Wholesome g ∧ ∀ child ∈ e.children, ∀ body, g.tree? child = some body → body.Faultless g := by
  have lists {children : List Nat} {items : List Tree}
      (parts : List.Forall₂ (fun child body => g.tree? child = some body) children items) :
      (∀ t ∈ items, t.Faultless g) ↔
        ∀ child ∈ children, ∀ body, g.tree? child = some body → body.Faultless g := by
    constructor
    · intro faultless child member body shown
      obtain ⟨body', listed, shown'⟩ := exists_related parts member
      cases shown.symm.trans shown'
      exact faultless body listed
    · intro faultless t listed
      obtain ⟨child, member, shown⟩ := exists_related parts.flip listed
      exact faultless child member t shown
  have only {child : Nat} {body : Tree} (part : g.tree? child = some body) : body.Faultless g ↔
      ∀ c ∈ [child], ∀ body, g.tree? c = some body → body.Faultless g := by
    rw [← lists (.cons part .nil), List.forall_mem_singleton]
  cases layer with
  | terminal => simp [Faultless, findings, terminalFindings_faultless, Expr.Wholesome, Expr.children]
  | @reference target memo =>
    have known : (Tree.reference i target memo).Faultless g ↔ ∀ p, g.productions[target]? = some p → p.defined = true := by
      unfold Faultless findings
      cases g.productions[target]? with
      | none => simp
      | some p =>
        cases defined : p.defined <;>
          simp [defined, Finding.Blocks, ProblemKind.severity, Severity.isBlocking]
    simp [known, Expr.Wholesome, Expr.children]
  | @action child name bound body part =>
    have warned : (Tree.action i name bound body).Faultless g ↔ body.Faultless g := by
      cases bound with
      | true => exact Iff.rfl
      | false => exact List.forall_mem_append.trans (and_iff_right (@Finding.mild_of_mem _ true rfl))
    rw [warned, only part]
    exact (iff_of_eq (true_and _)).symm
  | undo part => exact (only part).trans (iff_of_eq (true_and _)).symm
  | sequence parts => exact ((faultless_of_hint rfl).trans (lists parts)).trans (iff_of_eq (true_and _)).symm
  | choice parts => exact ((faultless_of_hint rfl).trans (lists parts)).trans (iff_of_eq (true_and _)).symm
  | repetition part => exact (only part).trans (iff_of_eq (true_and _)).symm
  | lookahead part => exact (only part).trans (iff_of_eq (true_and _)).symm

end Tree

namespace Grammar

variable {g : Grammar} {o : Options} {i : Nat} {t : Tree}

namespace WellFormed

variable (wellFormed : g.WellFormed)

include wellFormed

theorem faultless_of_wholesome (wholesome : ∀ {i e}, g.Rooted i → g.expr? i = some e → e.Wholesome g)
    (rooted : g.Rooted i) (shown : g.tree? i = some t) : t.Faultless g := by
  refine wellFormed.rooted_induction (motive := fun i => ∀ t, g.tree? i = some t → t.Faultless g) ?_ rooted t shown
  intro i e rooted present faultless t shown
  obtain ⟨t', shown', layer⟩ := wellFormed.layer rooted present
  cases shown.symm.trans shown'
  exact layer.faultless_iff.mpr ⟨wholesome rooted present, faultless⟩

/-- The analysis comes to every node within reach. -/
theorem wholesome_of_faultless
    (faultless : ∀ {index root t}, g.root? index = some root → g.tree? root = some t → t.Faultless g)
    (rooted : g.Rooted i) : ∃ e t, g.expr? i = some e ∧ g.tree? i = some t ∧ e.Wholesome g ∧ t.Faultless g := by
  have found {i : Nat} {t : Tree} (rooted : g.Rooted i) (shown : g.tree? i = some t) (clean : t.Faultless g) :
      ∃ e t, g.expr? i = some e ∧ g.tree? i = some t ∧ e.Wholesome g ∧ t.Faultless g := by
    obtain ⟨e, present⟩ := wellFormed.expr?_rooted rooted
    obtain ⟨t', shown', layer⟩ := wellFormed.layer rooted present
    cases shown.symm.trans shown'
    exact ⟨e, t, present, shown, (layer.faultless_iff.mp clean).1, clean⟩
  induction rooted with
  | root defined =>
    obtain ⟨t, shown⟩ := wellFormed.exists_tree? (.root defined)
    exact found (.root defined) shown (faultless defined shown)
  | part above present member ih =>
    obtain ⟨e, t, present', shown, -, clean⟩ := ih
    cases (expr?_of_node present).symm.trans present'
    obtain ⟨t', shown', layer⟩ := wellFormed.layer above present'
    cases shown.symm.trans shown'
    obtain ⟨body, part⟩ := layer.exists_branch member
    exact found (.part above present member) part ((layer.faultless_iff.mp clean).2 _ member body part)

theorem localProblems_clean : (g.localProblems o).hasErrors = false ↔
    (∀ {index : Nat} {p : Production}, g.productions[index]? = some p → p.duplicated = false) ∧
      ∀ {i : Nat} {e : Expr}, g.Rooted i → g.expr? i = some e → e.Wholesome g := by
  have production (p : Production) : (∀ f ∈ g.productionFindings p, ¬ f.Blocks) ↔
      p.duplicated = false ∧ ∀ t, g.tree? p.root = some t → t.Faultless g := by
    rw [productionFindings, List.forall_mem_append, List.forall_mem_append]
    refine and_congr ?_ ?_
    · rw [and_iff_left (Finding.mild_of_mem rfl)]
      cases p.duplicated with
      | true => simp [Finding.Blocks, ProblemKind.severity, Severity.isBlocking]
      | false => simp
    · cases g.tree? p.root with
      | none => simp
      | some t => simp [Tree.Faultless]
  have all : (g.localProblems o).hasErrors = false ↔
      ∀ p ∈ g.productions.toList, p.duplicated = false ∧ ∀ t, g.tree? p.root = some t → t.Faultless g := by
    rw [localProblems, Finding.problems_hasErrors]
    simp only [localFindings, List.mem_flatMap, forall_exists_index, and_imp, ← production]
    exact ⟨fun clean p listed f => clean f p listed, fun clean f p listed => clean p listed f⟩
  rw [all]
  constructor
  · intro clean
    have listed {index : Nat} {p : Production} (here : g.productions[index]? = some p) : p ∈ g.productions.toList :=
      Array.mem_toList_iff.mpr (Array.mem_of_getElem? here)
    refine ⟨fun here => (clean _ (listed here)).1, fun {i e} rooted present => ?_⟩
    have roots {index root : Nat} {t : Tree} (defined : g.root? index = some root) (shown : g.tree? root = some t) :
        t.Faultless g := by
      obtain ⟨p, here, rfl⟩ := Option.map_eq_some_iff.mp defined
      exact (clean p (listed here)).2 t shown
    obtain ⟨e', t, present', -, wholesome, -⟩ := wellFormed.wholesome_of_faultless roots rooted
    cases present.symm.trans present'
    exact wholesome
  · rintro ⟨distinct, wholesome⟩ p listed
    obtain ⟨index, here⟩ := List.mem_iff_getElem?.mp listed
    rw [Array.getElem?_toList] at here
    exact ⟨distinct here, fun t => wellFormed.faultless_of_wholesome wholesome (rooted_root here)⟩

theorem leftRecursionProblems_clean :
    (g.leftRecursionProblems o).hasErrors = false ↔ ∀ p, ¬ Relation.TransGen g.CallsLeft p p := by
  have none : (g.leftRecursionProblems o).hasErrors = false ↔ g.leftCycles = [] := by
    rw [leftRecursionProblems_eq, Problems.hasErrors_eq_false, List.forall_mem_map, List.eq_nil_iff_forall_not_mem]
    have blocked (cycle : LeftCycle) : (cycle.problem o g).severity = .error := rfl
    simp [blocked]
  rw [none]
  constructor
  · intro nothing p recursive
    obtain ⟨cycle, member, -⟩ := wellFormed.exists_cycle_of_recursive recursive
    rw [nothing] at member
    cases member
  · intro ascending
    apply List.eq_nil_iff_forall_not_mem.mpr
    intro cycle member
    obtain ⟨p, recursive⟩ := (wellFormed.genuine_of_mem member).recursive
    exact ascending p recursive

end WellFormed

/-- An empty grammar has a problem that is bound to no rule, found now or before. -/
theorem inhabited_of_problems (before : g.clearRuleProblems.hasErrors = false)
    (now : g.clearRuleProblems.emptyProblems.hasErrors = false) : g.productions ≠ #[] := by
  intro empty
  have mild := Problems.hasErrors_eq_false.mp before
  rw [emptyProblems] at now
  split at now
  · cases now
  · next known =>
    have isEmpty : g.clearRuleProblems.isEmpty = true := congrArg Array.isEmpty empty
    rw [isEmpty, Bool.true_and, Bool.not_eq_true', Bool.not_eq_false, Problems.hasKind, List.any_eq_true] at known
    obtain ⟨problem, member, kind⟩ := known
    apply (mild problem member).1
    rw [Problem.severity, beq_iff_eq.mp kind]
    rfl

theorem emptyProblems_of_inhabited (inhabited : g.productions ≠ #[]) : g.emptyProblems = [] := by
  simp [emptyProblems, isEmpty, inhabited]

theorem clearRuleProblems_clean : g.clearRuleProblems.hasErrors = false ↔
    ∀ problem ∈ g.problems, problem.rule = none → problem.severity ≠ .fatal ∧ problem.severity ≠ .error := by
  rw [hasErrors, Problems.hasErrors_eq_false]
  simp only [clearRuleProblems, Problems.unbound, List.mem_filter, Option.isNone_iff_eq_none, and_imp]

variable (wellFormed : g.WellFormed) (localAnalysis : o.localAnalysis = true) (leftRecursion : o.leftRecursion = true)

include wellFormed localAnalysis leftRecursion

theorem compiledProblems_clean : (g.compiledProblems o).hasErrors = false ↔ g.Clean := by
  rw [compiledProblems, Problems.hasErrors_sort, if_pos localAnalysis, if_pos leftRecursion, Problems.hasErrors_append,
    Problems.hasErrors_append, Problems.hasErrors_append, Bool.or_eq_false_iff, Bool.or_eq_false_iff,
    Bool.or_eq_false_iff, wellFormed.localProblems_clean, wellFormed.leftRecursionProblems_clean]
  constructor
  · rintro ⟨⟨⟨before, now⟩, distinct, wholesome⟩, ascending⟩
    exact ⟨clearRuleProblems_clean.mp before, inhabited_of_problems before now, distinct, wholesome, ascending⟩
  · rintro ⟨read, inhabited, distinct, wholesome, ascending⟩
    refine ⟨⟨⟨clearRuleProblems_clean.mpr read, ?_⟩, distinct, wholesome⟩, ascending⟩
    rw [emptyProblems_of_inhabited (g := g.clearRuleProblems) inhabited]
    rfl

/-- A grammar compiles to a usable one if it is clean and to a faulty one if it is not, whatever the options leave out
or add to the messages. Only the problems change, and a parser takes the outcome if it is usable. -/
theorem compile_exact : ((∃ usable, g.compile o = .usable usable) ↔ g.Clean) ∧
    ((∃ faulty, g.compile o = .faulty faulty) ↔ ¬ g.Clean) ∧
    (g.compile o).grammar = { g with problems := g.compiledProblems o } ∧
    ∀ {H S : Type} (handlers : Handlers H) (transaction : Transaction H S) (memoize : Bool),
      (∃ parser, Parser.ofGrammar (g.compile o).grammar handlers transaction memoize = .ok parser) ↔
        ∃ usable, g.compile o = .usable usable := by
  have exact := compiledProblems_clean wellFormed localAnalysis leftRecursion
  by_cases clean : g.Clean
  · have errors : (g.compiledProblems o).hasErrors = false := exact.mpr clean
    have compiled : g.compile o = .usable { g with problems := g.compiledProblems o } := by
      rw [compile_eq, outcome]
      exact if_neg (Bool.eq_false_iff.mp errors)
    rw [compiled]
    refine ⟨iff_of_true ⟨_, rfl⟩ clean, iff_of_false ?_ (not_not_intro clean), rfl, ?_⟩
    · rintro ⟨faulty, same⟩
      cases same
    · intro H S handlers transaction memoize
      have accepted : ¬ ((g.compiledProblems o).hasErrors || g.isEmpty) = true := by
        simp [errors, isEmpty, clean.inhabited]
      exact iff_of_true ⟨_, if_neg accepted⟩ ⟨_, rfl⟩
  · have errors : (g.compiledProblems o).hasErrors = true := Bool.not_eq_false _ ▸ mt exact.mp clean
    have compiled : g.compile o = .faulty { g with problems := g.compiledProblems o } := by
      rw [compile_eq, outcome]
      exact if_pos errors
    rw [compiled]
    refine ⟨iff_of_false ?_ clean, iff_of_true ⟨_, rfl⟩ clean, rfl, ?_⟩
    · rintro ⟨usable, same⟩
      cases same
    · intro H S handlers transaction memoize
      apply iff_of_false
      · rintro ⟨parser, accepted⟩
        have refused : ((g.compiledProblems o).hasErrors || g.isEmpty) = true := by rw [errors, Bool.true_or]
        have answer : Parser.ofGrammar (S := S) { g with problems := g.compiledProblems o } handlers transaction
          memoize = .error ⟨g.compiledProblems o⟩ := if_pos refused
        cases answer.symm.trans accepted
      · rintro ⟨usable, same⟩
        cases same

end Grammar

namespace Sample

/-- `number : digit digit*; digit : ['0'-'9'];` -/
def number : Grammar where
  productions := #[
    { name := "number", index := 0, root := 0, defined := true },
    { name := "digit", index := 1, root := 4, defined := true, references := [1, 3], referencedBy := [0] }]
  nodes := #[
    { expr := .sequence [1, 2], owner := 0 },
    { expr := .reference 1 false, owner := 0, parent := some 0 },
    { expr := .repetition 3 0 unbounded, owner := 0, parent := some 0 },
    { expr := .reference 1 false, owner := 0, parent := some 2 },
    { expr := .terminal (.interval ⟨'0', '9'⟩), owner := 1 }]
  problems := []
  source := none

/-- Numbers are usable, the entwined productions are not. -/
theorem number_clean : number.WellFormed ∧ entwined.WellFormed ∧ number.Clean ∧ ¬ entwined.Clean := by
  have wellFormed : number.WellFormed := Grammar.wellFormed_of_linked (by decide)
  have entwinedWellFormed : entwined.WellFormed := Grammar.wellFormed_of_linked (by decide)
  have usable : (number.compile {}).isUsable = true := by decide +kernel
  have faulty : (entwined.compile {}).isUsable = false := by decide +kernel
  refine ⟨wellFormed, entwinedWellFormed, ?_, ?_⟩
  · apply (Grammar.compile_exact (o := {}) wellFormed rfl rfl).1.mp
    cases outcome : number.compile {} with
    | usable g => exact ⟨g, rfl⟩
    | faulty g =>
      rw [outcome] at usable
      cases usable
  · apply (Grammar.compile_exact (o := {}) entwinedWellFormed rfl rfl).2.1.mp
    cases outcome : entwined.compile {} with
    | usable g =>
      rw [outcome] at faulty
      cases faulty
    | faulty g => exact ⟨g, rfl⟩

end Sample

end Packrat
