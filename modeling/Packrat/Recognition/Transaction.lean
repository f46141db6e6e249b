import Packrat.Segments

/-! # Transactions of the host

Recognition changes the state of its host inside nested scopes. A scope that is committed folds its
changes into the scope around it, one that is rolled back takes them back. What changed inside a
scope can be saved and loaded again elsewhere, if the host allows it.
-/

namespace Packrat

/-- How scopes act on a host `H` whose saved changes are of type `S`. -/
structure Transaction (H S : Type) where
  /-- Opens a scope. -/
  start : H → H
  commit : H → H
  rollback : H → H
  /-- What changed in the innermost scope, `none` when nothing did. -/
  save : H → Option S × H := fun host => (none, host)
  /-- Makes saved changes again. -/
  load : S → H → H := fun _ host => host
  /-- Saved changes stand for the reduction that made them. -/
  memoable : H → Bool := fun _ => false

namespace Transaction

/-- The transaction of a host that nothing changes. -/
def stateless (H : Type) : Transaction H Unit where
  start := id
  commit := id
  rollback := id
  memoable := fun _ => true

end Transaction

namespace Segments

variable {α : Type}

/-- Closes a mark if there is one. -/
def commit (s : Segments α) : Segments α := s.release?.getD s

/-- Takes back the top segment if there is a mark. -/
def rollback (s : Segments α) : Segments α := s.reset?.getD s

@[simp] theorem commit_mark (s : Segments α) : s.mark.commit = s := by
  simp [commit]

@[simp] theorem rollback_mark (s : Segments α) : s.mark.rollback = s := by
  simp [rollback]

/-- Items pushed in a scope that is rolled back are gone. The changes of a scope are the items in
its segment. -/
def transaction : Transaction (Segments α) (List α) where
  start := mark
  commit := commit
  rollback := rollback
  save := fun s => (some s.segment, s)
  load := fun items s => s.pushAll items
  memoable := fun _ => true

/-- The scopes of a stack whose changes cannot be saved. -/
def scopes : Transaction (Segments α) Unit where
  start := mark
  commit := commit
  rollback := rollback

end Segments

end Packrat
