import Packrat.Proofs.Analysis.Clean
import Packrat.Proofs.Grammar.Listed
import Mathlib

/-! # Compiling again and with other options

What a compiled grammar reports is found anew at every compilation, apart from what was found while it was read. So
compilations do not add up: the last one decides (`compile_last`). The options that suppress a severity or ask for
suggestions decide about a problem after it was found, so they are a filter over what is found without them
(`compile_filtered`).
-/

namespace Packrat

namespace Options

/-- The options do not suppress the problem. Problems that are bound to no rule are not found by an analysis. -/
def keeps (o : Options) (p : Problem) : Bool := p.rule.isNone || o.reports p.severity

/-- The problem with the suggestion that the options ask for. -/
def advise (o : Options) (p : Problem) : Problem :=
  if p.rule.isSome then { p with message := o.messageFor p.kind p.message } else p

variable {o : Options}

@[simp] theorem advise_span (p : Problem) : (o.advise p).span = p.span := by
  unfold advise
  split <;> rfl

@[simp] theorem advise_kind (p : Problem) : (o.advise p).kind = p.kind := by
  unfold advise
  split <;> rfl

@[simp] theorem advise_severity (p : Problem) : (o.advise p).severity = p.severity :=
  congrArg ProblemKind.severity (advise_kind p)

/-- What blocks a grammar is never suppressed. -/
theorem keeps_of_blocking {p : Problem} (blocking : p.severity.isBlocking = true) : o.keeps p = true := by
  rw [keeps, Bool.or_eq_true]
  right
  generalize p.severity = severity at blocking ⊢
  cases severity <;> simp_all [reports, Severity.isBlocking]

end Options

namespace Finding

variable {o o' : Options} {g : Grammar}

theorem rule_of_mem {findings : List Finding} {p : Problem} (member : p ∈ problems o g findings) :
    p.rule.isSome = true := by
  obtain ⟨f, -, found⟩ := List.mem_filterMap.mp member
  unfold Options.problem? at found
  split at found
  · cases found
    rfl
  · cases found

/-- The options have their say after everything is found. -/
theorem problems_filtered (warnings : o'.suppressWarnings = false) (hints : o'.suppressHints = false)
    (plain : o'.makeSuggestions = false) (findings : List Finding) :
    problems o g findings = ((problems o' g findings).filter o.keeps).map o.advise := by
  have found (f : Finding) : o'.problem? g f.kind f.rule f.message =
      some ⟨f.kind, some f.rule, g.ruleSpan f.rule, f.message⟩ := by
    have all : o'.reports f.kind.severity = true := by
      cases f.kind.severity <;> simp [Options.reports, warnings, hints]
    have message : o'.messageFor f.kind f.message = f.message := by
      unfold Options.messageFor
      split <;> simp [plain]
    rw [Options.problem?, if_pos all, message]
  induction findings with
  | nil => rfl
  | cons f rest ih =>
    unfold problems at ih ⊢
    rw [List.filterMap_cons, List.filterMap_cons, found f, ih]
    by_cases shown : o.reports f.kind.severity = true
    · simp [Options.problem?, shown, Options.keeps, Problem.severity, Options.advise]
    · simp [Options.problem?, shown, Options.keeps, Problem.severity]

end Finding

namespace Problems

variable {o : Options} {ps : Problems}

theorem unbound_append (ps qs : Problems) : unbound (ps ++ qs) = ps.unbound ++ qs.unbound := List.filter_append ..

@[simp] theorem unbound_unbound (ps : Problems) : ps.unbound.unbound = ps.unbound := by
  simp [unbound]

theorem unbound_eq_self (free : ∀ p ∈ ps, p.rule = none) : ps.unbound = ps := by
  apply List.filter_eq_self.mpr
  intro p member
  simp [free p member]

theorem unbound_eq_nil (bound : ∀ p ∈ ps, p.rule.isSome = true) : ps.unbound = [] := by
  apply List.filter_eq_nil_iff.mpr
  intro p member
  simpa [← Option.isSome_iff_ne_none] using bound p member

/-- What is bound to no rule goes through the filter as it is. -/
theorem filtered_of_free (free : ∀ p ∈ ps, p.rule = none) : (ps.filter o.keeps).map o.advise = ps := by
  have kept : ps.filter o.keeps = ps := by
    apply List.filter_eq_self.mpr
    intro p member
    simp [Options.keeps, free p member]
  have same : ∀ p ∈ ps, o.advise p = id p := by
    intro p member
    simp [Options.advise, free p member]
  rw [kept, List.map_congr_left same, List.map_id]

/-- The filter does not take away errors. -/
theorem hasErrors_filtered : hasErrors ((ps.filter o.keeps).map o.advise) = ps.hasErrors := by
  unfold hasErrors
  rw [List.any_map, List.any_filter]
  congr 1
  funext p
  cases blocking : p.severity.isBlocking with
  | false => simp [blocking]
  | true => simp [blocking, Options.keeps_of_blocking blocking]

end Problems

namespace Grammar

variable {g : Grammar} {o o' : Options}

theorem compile_grammar : (g.compile o).grammar = { g with problems := g.compiledProblems o } := by
  rw [compile_eq, outcome]
  split <;> rfl

theorem compile_isUsable : (g.compile o).isUsable = !(g.compiledProblems o).hasErrors := by
  rw [compile_eq, outcome, hasErrors]
  cases (g.compiledProblems o).hasErrors <;> rfl

theorem rule_of_emptyProblems {p : Problem} (member : p ∈ g.emptyProblems) : p.rule = none := by
  unfold emptyProblems at member
  split at member
  · rw [List.mem_singleton.mp member]
  · cases member

theorem rule_of_localProblems {p : Problem} (member : p ∈ if o.localAnalysis then g.localProblems o else []) :
    p.rule.isSome = true := by
  split at member
  · exact Finding.rule_of_mem member
  · cases member

theorem rule_of_leftRecursionProblems {p : Problem}
    (member : p ∈ if o.leftRecursion then g.leftRecursionProblems o else []) : p.rule.isSome = true := by
  split at member
  · exact Finding.rule_of_mem member
  · cases member

/-- What a compilation leaves for the next one: the problems of the text, and the lack of productions. -/
theorem unbound_compiledProblems : (g.compiledProblems o).unbound =
    Problems.sort (g.problems.unbound ++ g.clearRuleProblems.emptyProblems) := by
  rw [compiledProblems, Problems.unbound, Problems.filter_sort]
  change Problems.sort (Problems.unbound _) = _
  rw [Problems.unbound_append, Problems.unbound_append, Problems.unbound_append, Problems.unbound_unbound,
    Problems.unbound_eq_self fun _ => rule_of_emptyProblems, Problems.unbound_eq_nil fun _ => rule_of_localProblems,
    Problems.unbound_eq_nil fun _ => rule_of_leftRecursionProblems, List.append_nil, List.append_nil]

/-- The lack of productions is not reported twice. -/
theorem emptyProblems_compiled {problems : Problems}
    (before : problems.unbound = Problems.sort (g.problems.unbound ++ g.clearRuleProblems.emptyProblems)) :
    ({ g with problems } : Grammar).clearRuleProblems.emptyProblems = [] := by
  have known : ({ g with problems } : Grammar).clearRuleProblems.isEmpty = true →
      ({ g with problems } : Grammar).clearRuleProblems.problems.hasKind .emptyGrammar = true := by
    intro empty
    change problems.unbound.hasKind .emptyGrammar = true
    rw [before, Problems.hasKind, Problems.sort, (List.mergeSort_perm _ _).any_eq, List.any_append, Bool.or_eq_true]
    by_cases reported : g.clearRuleProblems.problems.hasKind .emptyGrammar = true
    · exact .inl reported
    · right
      have missing : (g.clearRuleProblems.isEmpty && !g.clearRuleProblems.problems.hasKind .emptyGrammar) = true := by
        rw [Bool.and_eq_true]
        exact ⟨empty, by simpa using reported⟩
      rw [emptyProblems, if_pos missing]
      rfl
  unfold emptyProblems
  split
  · next missing =>
    rw [Bool.and_eq_true] at missing
    simp [known missing.1] at missing
  · rfl

/-- A compilation does not see the one before it. -/
theorem compiledProblems_compiled :
    ({ g with problems := g.compiledProblems o } : Grammar).compiledProblems o' = g.compiledProblems o' := by
  have kept := unbound_compiledProblems (g := g) (o := o)
  have nothing := emptyProblems_compiled kept
  rw [compiledProblems, nothing, localProblems_with_problems, leftRecursionProblems_with_problems]
  dsimp only
  rw [kept, List.append_nil, List.append_assoc, Problems.sort_sort_append, ← List.append_assoc]
  rfl

/-- The last compilation decides, however often and with whatever options a grammar was compiled before, and whether
it was usable then or not: its verdict and its problems in their order are those of the grammar as it was at first. -/
theorem compile_last (g : Grammar) (o o' : Options) :
    (g.compile o).grammar.compile o' = g.compile o' ∧
    (g.compile o).grammar.compile o = g.compile o ∧
    ∀ history : List Options,
      (history.foldl (fun g earlier => (g.compile earlier).grammar) g).compile o' = g.compile o' := by
  have step (g : Grammar) (o o' : Options) : (g.compile o).grammar.compile o' = g.compile o' := by
    rw [compile_grammar, compile_eq, compiledProblems_compiled, compile_eq]
  refine ⟨step g o o', step g o o, fun history => ?_⟩
  induction history generalizing g with
  | nil => rfl
  | cons earlier history ih =>
    rw [List.foldl_cons, ih, step]

section Filtered

variable (warnings : o'.suppressWarnings = false) (hints : o'.suppressHints = false)
  (plain : o'.makeSuggestions = false)

include warnings hints plain

theorem compiledProblems_filtered (localAnalysis : o.localAnalysis = o'.localAnalysis)
    (leftRecursion : o.leftRecursion = o'.leftRecursion) :
    g.compiledProblems o = ((g.compiledProblems o').filter o.keeps).map o.advise := by
  have free : ∀ p ∈ g.problems.unbound ++ g.clearRuleProblems.emptyProblems, p.rule = none := by
    intro p member
    rcases List.mem_append.mp member with read | missing
    · simpa [Problems.unbound] using (List.mem_filter.mp read).2
    · exact rule_of_emptyProblems missing
  have read := Problems.filtered_of_free (o := o) free
  rw [compiledProblems, compiledProblems, Problems.filter_sort, Problems.map_sort Options.advise_span
    Options.advise_kind, List.filter_append, List.filter_append, List.map_append, List.map_append, read,
    localAnalysis, leftRecursion]
  congr 2
  · congr 1
    split
    · exact Finding.problems_filtered warnings hints plain _
    · rfl
  · split
    · exact Finding.problems_filtered warnings hints plain _
    · rfl

/-- Suppressing severities and asking for suggestions is a filter over the report of the same analyses: the verdict
stays, and so does the order of what is kept. -/
theorem compile_filtered (g : Grammar) (localAnalysis : o.localAnalysis = o'.localAnalysis)
    (leftRecursion : o.leftRecursion = o'.leftRecursion) :
    (g.compile o).isUsable = (g.compile o').isUsable ∧
    (g.compile o).grammar.problems = ((g.compile o').grammar.problems.filter o.keeps).map o.advise := by
  have filtered := compiledProblems_filtered (g := g) warnings hints plain localAnalysis leftRecursion
  constructor
  · rw [compile_isUsable, compile_isUsable, filtered, Problems.hasErrors_filtered]
  · rw [compile_grammar, compile_grammar]
    exact filtered

end Filtered

end Grammar

namespace Sample

/-- `S : 'a' 'b' $f(Gone) ; Spare : . ;`, with the first `;` missing in the text. -/
def patchy : Grammar where
  productions := #[
    { name := "S", index := 0, root := 0, defined := true },
    { name := "Spare", index := 1, root := 5, defined := true },
    { name := "Gone", index := 2, root := 6, references := [4], referencedBy := [0] }]
  nodes := #[
    { expr := .sequence [1, 2, 3], owner := 0, span := some ⟨⟨4, 1, 5⟩, ⟨22, 1, 23⟩⟩ },
    { expr := .terminal (.token "a" true), owner := 0, parent := some 0 },
    { expr := .terminal (.token "b" true), owner := 0, parent := some 0 },
    { expr := .action 4 "f" false, owner := 0, parent := some 0, span := some ⟨⟨12, 1, 13⟩, ⟨22, 1, 23⟩⟩ },
    { expr := .reference 2 false, owner := 0, parent := some 3 },
    { expr := .terminal .any, owner := 1 },
    { expr := .terminal .nil, owner := 2 }]
  problems := [⟨.missingSemicolon, none, some ⟨⟨22, 1, 23⟩, ⟨22, 1, 23⟩⟩, "missing `;`"⟩]
  source := none

/-- Without hints and with suggestions, what is left of the report is told what to do about it. -/
theorem patchy_filtered :
    (patchy.compile {}).grammar.problems.map (·.kind) =
      [.undefinedProduction, .unusedProduction, .inefficientSequence, .undefinedAction, .missingSemicolon] ∧
    (patchy.compile { suppressHints := true, makeSuggestions := true }).grammar.problems.map (·.message) =
      ["production `Gone` is not defined; define the production or fix the reference name",
        "production `Spare` is never used; remove the production or reference it",
        "no handler is registered for action `f`; register a handler under this name", "missing `;`"] ∧
    (patchy.compile { suppressHints := true, makeSuggestions := true }).isUsable = (patchy.compile {}).isUsable ∧
    (patchy.compile { suppressHints := true, makeSuggestions := true }).grammar.problems =
      ((patchy.compile {}).grammar.problems.filter
        ({ suppressHints := true, makeSuggestions := true } : Options).keeps).map
        ({ suppressHints := true, makeSuggestions := true } : Options).advise := by
  refine ⟨by cbv, by cbv, ?_⟩
  exact Grammar.compile_filtered rfl rfl rfl patchy rfl rfl

end Sample

end Packrat
