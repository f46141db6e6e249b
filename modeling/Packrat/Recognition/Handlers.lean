import Packrat.Text.Stream

/-! # Handlers of actions

A handler decides on the text an action has matched, and may change the host. It accepts the match,
rejects it like an ordinary failure, or aborts the recognition with an error.
-/

namespace Packrat

/-- A handler with the host `H`. -/
abbrev Handler (H : Type) := Context → H → Except String Bool × H

namespace Handler

variable {H : Type}

/-- Accepts every match, whatever the answer of the handler. -/
def accepting (handler : Handler H) : Handler H :=
  fun context host => (.ok true, (handler context host).2)

end Handler

/-- Handlers by the names of their actions, in the order the names were registered. -/
structure Handlers (H : Type) where
  entries : Array (String × Handler H)

namespace Handlers

variable {H : Type}

def empty : Handlers H := ⟨#[]⟩

instance : Inhabited (Handlers H) := ⟨empty⟩

/-- The place of a name among the registered ones. -/
def slot? (handlers : Handlers H) (name : String) : Option Nat :=
  handlers.entries.findIdx? (·.1 == name)

/-- Registers a handler. It takes the place of an earlier one of the same name. -/
def register (handlers : Handlers H) (name : String) (handler : Handler H) : Handlers H :=
  match handlers.slot? name with
  | some slot => ⟨handlers.entries.modify slot fun _ => (name, handler)⟩
  | none => ⟨handlers.entries.push (name, handler)⟩

def names (handlers : Handlers H) : List String := handlers.entries.toList.map Prod.fst

def find? (handlers : Handlers H) (name : String) : Option (Handler H) :=
  (handlers.entries.find? (·.1 == name)).map Prod.snd

def size (handlers : Handlers H) : Nat := handlers.entries.size

end Handlers

end Packrat
