import Packrat.Grammar.Undo
import Packrat.Proofs.Grammar.Trees

/-! # The marks of productions

A walk never takes a mark back, and what it says of an expression lies between the marks before and
behind it. So the marks that are given are right whatever the order of the walks, and a production
whose walk is under way elsewhere is only put off. A round without a new mark has walked every
production that is left by the same marks, and none of them can act then. Hence the marks tell
exactly which productions lead to an action (`mark_eq_some_iff`).
-/

namespace Packrat

namespace Mark

variable {a b c d : Mark}

/-- What the first mark knows, the second one knows too. -/
def Below (a b : Mark) : Prop := ∀ acts ∈ a, acts ∈ b

theorem Below.refl (a : Mark) : a.Below a := fun _ known => known

theorem Below.trans (first : a.Below b) (second : b.Below c) : a.Below c :=
  fun acts known => second acts (first acts known)

theorem Below.antisymm (first : a.Below b) (second : b.Below a) : a = b :=
  Option.ext fun acts => ⟨first acts, second acts⟩

@[simp] theorem merge_eq_some_true : a.merge b = some true ↔ a = some true ∨ b = some true := by
  rcases a with _ | _ | _ <;> rcases b with _ | _ | _ <;> simp [merge]

@[simp] theorem merge_eq_some_false : a.merge b = some false ↔ a = some false ∧ b = some false := by
  rcases a with _ | _ | _ <;> rcases b with _ | _ | _ <;> simp [merge]

theorem Below.merge (left : a.Below b) (right : c.Below d) : (a.merge c).Below (b.merge d) := by
  intro acts known
  cases acts with
  | true => exact merge_eq_some_true.mpr ((merge_eq_some_true.mp known).imp (left true) (right true))
  | false => exact merge_eq_some_false.mpr ((merge_eq_some_false.mp known).imp (left false) (right false))

end Mark

namespace Tree

variable {acting acting' : Nat → Bool} {marks marks' : Nat → Mark}

theorem anyActs_eq (items : List Tree) : anyActs acting items = items.any (acts acting) := by
  induction items with
  | nil => rfl
  | cons t rest ih => rw [anyActs, List.any_cons, ih]

mutual

/-- More acting productions make more trees act. -/
theorem acts_mono (le : ∀ i, acting i = true → acting' i = true) :
    ∀ t : Tree, t.acts acting = true → t.acts acting' = true
  | .terminal .., acts => acts
  | .reference _ target _, acts => le target acts
  | .action .., _ | .undo .., _ => rfl
  | .sequence _ items, acts | .choice _ items, acts => anyActs_mono le items acts
  | .repetition _ _ _ body, acts => acts_mono le body acts
  | .lookahead .., acts => acts

theorem anyActs_mono (le : ∀ i, acting i = true → acting' i = true) :
    ∀ items : List Tree, anyActs acting items = true → anyActs acting' items = true
  | [], acts => acts
  | t :: rest, acts => by
    simp only [anyActs, Bool.or_eq_true] at acts ⊢
    exact acts.imp (acts_mono le t) (anyActs_mono le rest)

end

mutual

/-- The mark of an expression when those of the productions do not change on the way. -/
def markBy (marks : Nat → Mark) : Tree → Mark
  | terminal .. => some false
  | reference _ target _ => marks target
  | action .. | undo .. => some true
  | sequence _ items | choice _ items => markAllBy marks (some false) items
  | repetition _ _ _ body => body.markBy marks
  | lookahead .. => some false

def markAllBy (marks : Nat → Mark) (found : Mark) : List Tree → Mark
  | [] => found
  | t :: rest => markAllBy marks (found.merge (t.markBy marks)) rest

end

mutual

theorem markBy_mono (below : ∀ i, (marks i).Below (marks' i)) : ∀ t : Tree, (t.markBy marks).Below (t.markBy marks')
  | .terminal .. => .refl _
  | .reference _ target _ => below target
  | .action .. | .undo .. => .refl _
  | .sequence _ items | .choice _ items => markAllBy_mono below (.refl _) items
  | .repetition _ _ _ body => markBy_mono below body
  | .lookahead .. => .refl _

theorem markAllBy_mono (below : ∀ i, (marks i).Below (marks' i)) {found found' : Mark} (more : found.Below found') :
    ∀ items : List Tree, (markAllBy marks found items).Below (markAllBy marks' found' items)
  | [] => more
  | t :: rest => markAllBy_mono below (more.merge (markBy_mono below t)) rest

end

mutual

/-- By marks that are right where they are known, an expression that is marked acts as its mark says. -/
theorem acts_of_markBy (right : ∀ i, ∀ b ∈ marks i, acting i = b) :
    ∀ (t : Tree) {b : Bool}, t.markBy marks = some b → t.acts acting = b
  | .terminal .., _, marked | .action .., _, marked | .undo .., _, marked | .lookahead .., _, marked =>
    Option.some.inj marked
  | .reference _ target _, b, marked => right target b marked
  | .sequence _ items, b, marked | .choice _ items, b, marked => by
    have all := anyActs_of_markAllBy right items marked
    cases b with
    | true => exact (all.1 rfl).resolve_left nofun
    | false => exact (all.2 rfl).2
  | .repetition _ _ _ body, _, marked => acts_of_markBy right body marked

theorem anyActs_of_markAllBy (right : ∀ i, ∀ b ∈ marks i, acting i = b) :
    ∀ (items : List Tree) {found : Mark} {b : Bool}, markAllBy marks found items = some b →
      (b = true → found = some true ∨ anyActs acting items = true) ∧
      (b = false → found = some false ∧ anyActs acting items = false)
  | [], found, b, marked => ⟨fun same => .inl (same ▸ marked), fun same => ⟨same ▸ marked, rfl⟩⟩
  | t :: rest, found, b, marked => by
    have later := anyActs_of_markAllBy right rest marked
    constructor
    · intro same
      rcases later.1 same with here | there
      · refine (Mark.merge_eq_some_true.mp here).imp_right fun here => ?_
        rw [anyActs, acts_of_markBy right t here, Bool.true_or]
      · rw [anyActs, there, Bool.or_true]
        exact .inr rfl
    · intro same
      obtain ⟨here, there⟩ := later.2 same
      obtain ⟨before, here⟩ := Mark.merge_eq_some_false.mp here
      refine ⟨before, ?_⟩
      rw [anyActs, acts_of_markBy right t here, there, Bool.or_false]

end

mutual

/-- Where acting productions have their mark, so have acting expressions. -/
theorem markBy_of_acts (known : ∀ i, acting i = true → marks i = some true) :
    ∀ t : Tree, t.acts acting = true → t.markBy marks = some true
  | .terminal .., acts | .lookahead .., acts => nomatch acts
  | .reference _ target _, acts => known target acts
  | .action .., _ | .undo .., _ => rfl
  | .sequence _ items, acts | .choice _ items, acts => markAllBy_of_anyActs known items (.inr acts)
  | .repetition _ _ _ body, acts => markBy_of_acts known body acts

theorem markAllBy_of_anyActs (known : ∀ i, acting i = true → marks i = some true) :
    ∀ (items : List Tree) {found : Mark}, found = some true ∨ anyActs acting items = true →
      markAllBy marks found items = some true
  | [], _, acts => acts.resolve_right Bool.noConfusion
  | t :: rest, found, acts => by
    refine markAllBy_of_anyActs known rest ?_
    rw [anyActs, Bool.or_eq_true, ← or_assoc] at acts
    exact acts.imp_left fun early => Mark.merge_eq_some_true.mpr (early.imp_right (markBy_of_acts known t))

end

end Tree

/-- The production acts, when productions that do are told apart by `acting`. -/
inductive LeadsToAction (trees : List (Option Tree)) : Nat → Prop
  | intro {index : Nat} {t : Tree} {acting : Nat → Bool} (shown : trees[index]? = some (some t))
      (acts : t.acts acting = true) (others : ∀ i, acting i = true → LeadsToAction trees i) : LeadsToAction trees index

theorem leadsToAction_iff {trees : List (Option Tree)} {acting : Nat → Bool} {index : Nat} {t : Tree}
    (agree : ∀ i, acting i = true ↔ LeadsToAction trees i) (shown : trees[index]? = some (some t)) :
    LeadsToAction trees index ↔ t.acts acting = true := by
  constructor
  · rintro ⟨shown', acts, others⟩
    cases shown.symm.trans shown'
    exact Tree.acts_mono (fun i acts => (agree i).mpr (others i acts)) t acts
  · intro acts
    exact .intro shown acts fun i acts => (agree i).mp acts

namespace Marking

variable {trees : List (Option Tree)} {m m' m'' : Marking} {index i : Nat} {t : Tree}

@[simp] theorem mark_enter : (m.enter index).mark i = m.mark i := rfl

theorem isUntested_enter : (m.enter index).isUntested i = if i = index then false else m.isUntested i := by
  simp only [isUntested, enter, List.getD_eq_getElem?_getD]
  by_cases itself : i = index
  · by_cases within : index < m.untested.length <;> simp [itself, within]
  · simp [itself, Ne.symm itself]

theorem mark_settle {mark : Mark} (within : index < m.marks.length) :
    (m.settle index mark).mark i = if i = index then mark else m.mark i := by
  simp only [Marking.mark, settle, List.getD_eq_getElem?_getD]
  by_cases itself : i = index
  · simp [itself, within]
  · simp [itself, Ne.symm itself]

@[simp] theorem isUntested_settle {mark : Mark} : (m.settle index mark).isUntested i = m.isUntested i := rfl

theorem mark_of_length_le (beyond : m.marks.length ≤ i) : m.mark i = none := by
  simp [Marking.mark, beyond]

/-- The marks that are known are right. -/
structure Right (trees : List (Option Tree)) (m : Marking) : Prop where
  length : m.marks.length = trees.length
  mark : ∀ {i : Nat} {acts : Bool}, m.mark i = some acts → (acts = true ↔ LeadsToAction trees i)

/-- An expression that is marked by right marks is marked rightly. -/
theorem Right.leadsToAction {acts : Bool} (right : m.Right trees) (shown : trees[index]? = some (some t))
    (marked : t.markBy m.mark = some acts) : acts = true ↔ LeadsToAction trees index := by
  classical
  let acting (i : Nat) : Bool := decide (LeadsToAction trees i)
  have known : ∀ i, ∀ b ∈ m.mark i, acting i = b := by
    intro i b known
    rw [Bool.eq_iff_iff, decide_eq_true_iff, right.mark known]
  have agree : ∀ i, acting i = true ↔ LeadsToAction trees i := fun i => decide_eq_true_iff
  rw [leadsToAction_iff agree shown, Tree.acts_of_markBy known t marked]

/-- When no production without a mark gets one by the marks there are, all that lead to an action have theirs. -/
theorem Right.mark_of_leadsToAction (right : m.Right trees)
    (rest : ∀ {i t}, m.mark i = none → trees[i]? = some (some t) → t.markBy m.mark = none)
    (leads : LeadsToAction trees index) : m.mark index = some true := by
  induction leads with
  | @intro index t acting shown acts others ih =>
    have marked := Tree.markBy_of_acts ih t acts
    cases known : m.mark index with
    | none => cases marked.symm.trans (rest known shown)
    | some b => rw [(right.mark known).mpr (.intro shown acts others)]

theorem Right.settle {acts : Bool} (right : m.Right trees) (within : index < trees.length)
    (mark : acts = true ↔ LeadsToAction trees index) : (m.settle index (some acts)).Right trees where
  length := (List.length_set ..).trans right.length
  mark {i b} known := by
    rw [mark_settle (right.length ▸ within)] at known
    split at known
    · next same =>
      cases known
      exact same ▸ mark
    · exact right.mark known

/-- From one marking on, some walks came to the other. -/
structure Advances (trees : List (Option Tree)) (m m' : Marking) : Prop where
  keeps : ∀ i, (m.mark i).Below (m'.mark i)
  tested : ∀ {i}, m'.isUntested i = true → m.isUntested i = true
  /-- A production gets its mark from its own walk. -/
  settled : ∀ {i}, m.isUntested i = false → m'.mark i = m.mark i
  right : m.Right trees → m'.Right trees
  /-- When nothing became known, the productions that were walked get no mark by what was known. -/
  idle : m.Right trees → m'.mark = m.mark → ∀ {i t}, m.isUntested i = true → m'.isUntested i = false →
    trees[i]? = some (some t) → t.markBy m.mark = none

theorem Advances.refl (trees : List (Option Tree)) (m : Marking) : Advances trees m m where
  keeps _ := .refl _
  tested untested := untested
  settled _ := rfl
  right := id
  idle _ _ _ _ before after := absurd (before.symm.trans after) nofun

theorem Advances.trans (first : Advances trees m m') (second : Advances trees m' m'') : Advances trees m m'' where
  keeps i := (first.keeps i).trans (second.keeps i)
  tested untested := first.tested (second.tested untested)
  settled {i} done := by
    have still : m'.isUntested i = false := Bool.eq_false_iff.mpr fun untested =>
      absurd (done.symm.trans (first.tested untested)) nofun
    rw [second.settled still, first.settled done]
  right right := second.right (first.right right)
  idle right same i t before after shown := by
    have middle : m'.mark = m.mark := by
      funext j
      exact ((first.keeps j).antisymm (same ▸ second.keeps j)).symm
    cases between : m'.isUntested i with
    | false => exact first.idle right middle before between shown
    | true =>
      have later := second.idle (first.right right) (same.trans middle.symm) between after shown
      rwa [middle] at later

/-- What is answered is known by the marks behind the walk, if not by those before. -/
structure Walks (trees : List (Option Tree)) (formula : (Nat → Mark) → Mark) (m : Marking) (answer : Mark × Marking) :
    Prop where
  advances : Advances trees m answer.2
  lower : (formula m.mark).Below answer.1
  upper : answer.1.Below (formula answer.2.mark)

/-- Productions are visited for their marks. -/
def Visits (trees : List (Option Tree)) (visit : Nat → Marking → Mark × Marking) : Prop :=
  ∀ index m, Walks trees (fun marks => marks index) m (visit index m)

end Marking

namespace Tree

open Marking

variable {trees : List (Option Tree)} {visit : Nat → Marking → Mark × Marking}

mutual

theorem mark_walks (visits : Visits trees visit) :
    ∀ (t : Tree) (m : Marking), Walks trees (fun marks => t.markBy marks) m (t.mark visit m)
  | .terminal .., m => ⟨.refl trees m, .refl _, .refl _⟩
  | .reference _ target _, m => visits target m
  | .action _ _ _ body, m | .undo _ body, m | .lookahead _ _ body, m =>
    ⟨(mark_walks visits body m).advances, .refl _, .refl _⟩
  | .sequence _ items, m | .choice _ items, m => markAll_walks visits items (some false) m
  | .repetition _ _ _ body, m => mark_walks visits body m

theorem markAll_walks (visits : Visits trees visit) :
    ∀ (items : List Tree) (found : Mark) (m : Marking),
      Walks trees (fun marks => markAllBy marks found items) m (markAll visit found items m)
  | [], _, m => ⟨.refl trees m, .refl _, .refl _⟩
  | t :: rest, found, m => by
    have head := mark_walks visits t m
    have tail := markAll_walks visits rest (found.merge (t.mark visit m).1) (t.mark visit m).2
    refine ⟨head.advances.trans tail.advances, ?_, ?_⟩
    · exact (markAllBy_mono head.advances.keeps ((Mark.Below.refl found).merge head.lower) rest).trans tail.lower
    · refine tail.upper.trans (markAllBy_mono (fun _ => .refl _) ((Mark.Below.refl found).merge ?_) rest)
      exact head.upper.trans (markBy_mono tail.advances.keeps t)

end

end Tree

namespace Grammar

open Marking

variable {trees : List (Option Tree)} {m : Marking} {index i depth rounds : Nat} {unresolved : List Nat}

/-- A walk that begins and ends with the mark of the production. -/
private theorem advances_settle {t : Tree} {answer : Mark × Marking} (unknown : m.mark index = none)
    (untested : m.isUntested index = true) (shown : trees[index]? = some (some t))
    (walks : Walks trees (fun marks => t.markBy marks) (m.enter index) answer) :
    Advances trees m (answer.2.settle index answer.1) := by
  obtain ⟨advances, lower, upper⟩ := walks
  have within : index < trees.length := (List.getElem?_eq_some_iff.mp shown).1
  have entered (right : m.Right trees) : (m.enter index).Right trees := ⟨right.length, right.mark⟩
  have walked : (m.enter index).isUntested index = false := by rw [isUntested_enter, if_pos rfl]
  have still : answer.2.mark index = none := (advances.settled walked).trans unknown
  have outside {i : Nat} (other : i ≠ index) : (answer.2.settle index answer.1).mark i = answer.2.mark i := by
    simp [Marking.mark, Marking.settle, List.getD_eq_getElem?_getD, Ne.symm other]
  have here (right : m.Right trees) : (answer.2.settle index answer.1).mark index = answer.1 := by
    rw [mark_settle ((advances.right (entered right)).length ▸ within), if_pos rfl]
  constructor
  case keeps =>
    intro i
    by_cases itself : i = index
    · subst itself
      rw [unknown]
      exact fun _ known => nomatch known
    · rw [outside itself]
      exact advances.keeps i
  case tested =>
    intro i later
    have later := advances.tested later
    rw [isUntested_enter] at later
    split at later
    · cases later
    · exact later
  case settled =>
    intro i done
    have other : i ≠ index := by
      rintro rfl
      cases untested.symm.trans done
    rw [outside other, advances.settled (by rw [isUntested_enter, if_neg other, done])]
    rfl
  case right =>
    intro right
    have behind := advances.right (entered right)
    cases known : answer.1 with
    | none =>
      refine ⟨(List.length_set ..).trans behind.length, fun {i acts} marked => ?_⟩
      rw [mark_settle (behind.length ▸ within)] at marked
      split at marked
      · cases marked
      · exact behind.mark marked
    | some acts => exact behind.settle within (behind.leadsToAction shown (upper acts known))
  case idle =>
    intro right same i t' before after shown'
    have middle : answer.2.mark = m.mark := by
      funext j
      by_cases itself : j = index
      · rw [itself, still, unknown]
      · rw [← outside itself, same]
    by_cases itself : i = index
    · subst itself
      cases shown.symm.trans shown'
      have nothing : answer.1 = none := by rw [← here right, same, unknown]
      rw [nothing] at lower
      exact Option.eq_none_iff_forall_ne_some.mpr fun acts known => nomatch lower acts known
    · exact advances.idle (entered right) middle (by rw [isUntested_enter, if_neg itself, before]) after shown'

theorem visit_visits (trees : List (Option Tree)) (depth : Nat) : Visits trees (visit trees depth) := by
  induction depth with
  | zero => exact fun index m => ⟨.refl trees m, .refl _, .refl _⟩
  | succ depth ih =>
    intro index m
    rw [visit]
    split
    · next free =>
      obtain ⟨unknown, untested⟩ := (Bool.and_eq_true _ _).mp free
      have unknown := Option.isNone_iff_eq_none.mp unknown
      split
      · next t shown =>
        have advances := advances_settle unknown untested shown (Tree.mark_walks ih t (m.enter index))
        exact ⟨advances, advances.keeps index, .refl _⟩
      · next unshown =>
        refine ⟨⟨fun _ => .refl _, ?_, fun _ => rfl, fun right => ⟨right.length, right.mark⟩, ?_⟩, ?_, ?_⟩
        · intro i later
          rw [isUntested_enter] at later
          split at later
          · cases later
          · exact later
        · intro _ _ i t before after shown
          rw [isUntested_enter] at after
          split at after
          · next itself => exact absurd (itself ▸ shown) (unshown t)
          · cases before.symm.trans after
        · exact unknown ▸ .refl _
        · exact fun _ known => nomatch known
    · exact ⟨.refl trees m, .refl _, .refl _⟩

/-- A production that is visited has been walked in this round, or has its mark. -/
private theorem visit_tests (within : index < trees.length) :
    (visit trees trees.length index m).2.isUntested index = false ∨
      (visit trees trees.length index m).2.mark index ≠ none := by
  obtain ⟨depth, enough⟩ := Nat.exists_eq_add_one_of_ne_zero (Nat.ne_zero_of_lt within)
  rw [enough, visit]
  have entered : (m.enter index).isUntested index = false := by rw [isUntested_enter, if_pos rfl]
  split
  · split
    · next t _ =>
      have walks := Tree.mark_walks (visit_visits trees depth) t (m.enter index)
      refine .inl (Bool.eq_false_iff.mpr fun untested => ?_)
      cases entered.symm.trans (walks.advances.tested untested)
    · exact .inl entered
  · next busy =>
    rw [Bool.and_eq_true, Option.isNone_iff_eq_none, not_and_or, Bool.not_eq_true] at busy
    exact busy.symm

/-- A round: those that are left have been walked and got no mark, and the others have theirs. -/
theorem sweep_spec (within : ∀ index ∈ unresolved, index < trees.length) :
    Advances trees m (sweep trees unresolved m).2 ∧ (sweep trees unresolved m).1.Sublist unresolved ∧
      (∀ i ∈ unresolved, i ∉ (sweep trees unresolved m).1 → (sweep trees unresolved m).2.mark i ≠ none) ∧
      ∀ i ∈ (sweep trees unresolved m).1, (sweep trees unresolved m).2.mark i = none ∧
        (sweep trees unresolved m).2.isUntested i = false := by
  induction unresolved generalizing m with
  | nil => exact ⟨.refl trees m, .slnil, nofun, nofun⟩
  | cons index rest ih =>
    obtain ⟨inside, within⟩ := List.forall_mem_cons.mp within
    have first := (visit_visits trees trees.length index m).advances
    have tests := visit_tests (m := m) inside
    rw [sweep]
    generalize (visit trees trees.length index m).2 = next at first tests
    obtain ⟨advances, fewer, known, unknown⟩ := ih (m := next) within
    have stays {b : Bool} (marked : next.mark index = some b) : (sweep trees rest next).2.mark index ≠ none := by
      rw [advances.keeps index b marked]
      exact Option.some_ne_none b
    dsimp only
    cases marked : next.mark index with
    | none =>
      have tested := tests.resolve_right (fun found => found marked)
      refine ⟨first.trans advances, fewer.cons_cons index, ?_, ?_⟩
      · intro i member gone
        rw [Option.isNone_none, if_pos rfl, List.mem_cons, not_or] at gone
        exact known i ((List.mem_cons.mp member).resolve_left gone.1) gone.2
      · rw [Option.isNone_none, if_pos rfl, List.forall_mem_cons]
        refine ⟨⟨(advances.settled tested).trans marked, Bool.eq_false_iff.mpr fun untested => ?_⟩, unknown⟩
        cases tested.symm.trans (advances.tested untested)
    | some b =>
      refine ⟨first.trans advances, fewer.cons index, ?_, unknown⟩
      intro i member gone
      rcases List.mem_cons.mp member with rfl | member
      · exact stays marked
      · exact known i member gone

/-- The productions that no round can mark get theirs at the end. -/
private theorem right_settleAll {left : List Nat} (right : m.Right trees) (within : ∀ i ∈ left, i < trees.length)
    (idle : ∀ i ∈ left, ¬ LeadsToAction trees i) :
    (left.foldl (fun m index => m.settle index (some false)) m).Right trees ∧
      ∀ i, m.mark i ≠ none ∨ i ∈ left → (left.foldl (fun m index => m.settle index (some false)) m).mark i ≠ none := by
  induction left generalizing m with
  | nil => exact ⟨right, fun i known => known.resolve_right List.not_mem_nil⟩
  | cons index rest ih =>
    obtain ⟨inside, within⟩ := List.forall_mem_cons.mp within
    obtain ⟨here, idle⟩ := List.forall_mem_cons.mp idle
    have settled : (m.settle index (some false)).Right trees :=
      right.settle inside (iff_of_false Bool.false_ne_true here)
    obtain ⟨all, known⟩ := ih settled within idle
    refine ⟨all, fun i either => known i ?_⟩
    rw [mark_settle (right.length ▸ inside)]
    split
    · exact .inl (Option.some_ne_none _)
    · next other => exact either.imp_right fun member => (List.mem_cons.mp member).resolve_left other

/-- Rounds end with right marks for all productions. -/
theorem resolve_spec (right : m.Right trees) (within : ∀ i ∈ unresolved, i < trees.length)
    (complete : ∀ i < trees.length, m.mark i = none → i ∈ unresolved) (enough : unresolved.length < rounds) :
    (resolve trees rounds unresolved m).Right trees ∧
      ∀ i < trees.length, (resolve trees rounds unresolved m).mark i ≠ none := by
  induction rounds generalizing unresolved m with
  | zero => exact absurd enough (Nat.not_lt_zero _)
  | succ rounds ih =>
    rw [resolve]
    split
    · next none =>
      refine ⟨right, fun i inside unknown => ?_⟩
      rw [List.isEmpty_iff.mp none] at complete
      exact List.not_mem_nil (complete i inside unknown)
    · have fresh : m.refresh.Right trees := ⟨right.length, right.mark⟩
      obtain ⟨advances, fewer, known, unknown⟩ := sweep_spec (m := m.refresh) within
      generalize sweep trees unresolved m.refresh = round at advances fewer known unknown
      obtain ⟨left, last⟩ := round
      dsimp only at advances fewer known unknown ⊢
      have behind := advances.right fresh
      have inside : ∀ i ∈ left, i < trees.length := fun i member => within i (fewer.subset member)
      have still : ∀ i < trees.length, last.mark i = none → i ∈ left := by
        intro i small missing
        by_contra gone
        have before : m.mark i = none :=
          Option.eq_none_iff_forall_ne_some.mpr fun b marked => nomatch missing.symm.trans (advances.keeps i b marked)
        exact known i (complete i small before) gone missing
      split
      · next stuck =>
        obtain rfl := fewer.eq_of_length stuck
        -- A round that leaves all of them has changed no mark at all.
        have same : last.mark = m.refresh.mark := by
          funext i
          cases marked : m.refresh.mark i with
          | some b => exact advances.keeps i b marked
          | none =>
            by_cases small : i < trees.length
            · exact (unknown i (complete i small marked)).1
            · exact mark_of_length_le (by rw [behind.length]; omega)
        have idle : ∀ i ∈ left, ¬ LeadsToAction trees i := by
          intro i member leads
          have marked := behind.mark_of_leadsToAction (fun {j t} missing shown => ?_) leads
          · cases (unknown i member).1.symm.trans marked
          · have small : j < trees.length := (List.getElem?_eq_some_iff.mp shown).1
            have untested : m.refresh.isUntested j = true := by
              simp [isUntested, refresh, List.getD_eq_getElem?_getD, right.length, small]
            rw [same]
            exact advances.idle fresh same untested (unknown j (still j small missing)).2 shown
        obtain ⟨all, marked⟩ := right_settleAll behind inside idle
        refine ⟨all, fun i small => marked i ?_⟩
        by_cases missing : last.mark i = none
        · exact .inr (still i small missing)
        · exact .inl missing
      · next progress =>
        have shorter : left.length < unresolved.length := Nat.lt_of_le_of_ne fewer.length_le progress
        exact ih behind inside still (by omega)

variable {g : Grammar}

/-- The marks are right, and none is missing. -/
private theorem exists_marking (g : Grammar) :
    ∃ m : Marking, g.marks = m.marks ∧ m.Right g.rootTrees ∧ ∀ i < g.rootTrees.length, m.mark i ≠ none := by
  let start : Marking := ⟨g.rootTrees.map fun _ => none, g.rootTrees.map fun _ => true⟩
  have blank (i : Nat) : start.mark i = none := by
    simp only [start, Marking.mark, List.getD_eq_getElem?_getD, List.getElem?_map]
    cases g.rootTrees[i]? <;> rfl
  have right : start.Right g.rootTrees :=
    ⟨List.length_map .., fun {i acts} marked => nomatch (blank i).symm.trans marked⟩
  have enough : (List.range g.rootTrees.length).length < g.rootTrees.length + 1 := by
    rw [List.length_range]
    exact Nat.lt_succ_self _
  obtain ⟨all, marked⟩ := resolve_spec right (fun i => List.mem_range.mp)
    (fun i small _ => List.mem_range.mpr small) enough
  exact ⟨_, rfl, all, marked⟩

/-- Every production has a mark, and it tells whether the production leads to an action. -/
theorem mark_eq_some_iff (known : index < g.productions.size) :
    ∃ acts, g.marks[index]? = some (some acts) ∧ (acts = true ↔ LeadsToAction g.rootTrees index) := by
  obtain ⟨m, same, right, marked⟩ := g.exists_marking
  have within : index < g.rootTrees.length := by
    rw [rootTrees, List.length_map]
    exact known
  obtain ⟨acts, found⟩ := Option.ne_none_iff_exists'.mp (marked index within)
  refine ⟨acts, ?_, right.mark found⟩
  have inside : index < m.marks.length := right.length ▸ within
  rw [Marking.mark, List.getD_eq_getElem?_getD, List.getElem?_eq_getElem inside, Option.getD_some] at found
  rw [same, List.getElem?_eq_getElem inside, found]

/-- The production acts by its mark. -/
def acting (g : Grammar) (index : Nat) : Bool := g.actingProductions.getD index false

theorem acting_iff : g.acting index = true ↔ LeadsToAction g.rootTrees index := by
  obtain ⟨m, same, right, marked⟩ := g.exists_marking
  have read : g.acting index = (m.mark index == some true) := by
    simp only [acting, actingProductions, same, Marking.mark, List.getD_eq_getElem?_getD, List.getElem?_map]
    cases m.marks[index]? <;> rfl
  rw [read, beq_iff_eq]
  cases found : m.mark index with
  | some acts => rw [Option.some.injEq, right.mark found]
  | none =>
    refine iff_of_false nofun fun leads => ?_
    obtain ⟨shown, -, -⟩ := leads
    exact marked index (List.getElem?_eq_some_iff.mp shown).1 found

end Grammar

end Packrat
