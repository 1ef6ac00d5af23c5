/-!
# Alerts

Short-lived messages to the operator. An alert is shown at once and stays until its time is over;
equal messages are separate alerts, told apart by their numbers.
-/

set_option autoImplicit false

namespace EngineConsole

inductive AlertKind where
  | success
  | error
  deriving Repr, DecidableEq

structure Alert where
  id : Nat
  kind : AlertKind
  message : String
  raisedAt : Nat
  deriving Repr, DecidableEq

namespace Alert

def idText (id : Nat) : String :=
  "#" ++ toString id

def line (a : Alert) : String :=
  match a.kind with
  | .success => "[ok] " ++ a.message
  | .error => "[error] " ++ a.message

end Alert

structure AlertBoard where
  visible : List Alert := []
  nextId : Nat := 0
  ttl : Nat
  deriving Repr, DecidableEq

namespace AlertBoard

def standardTtl : Nat := 5000

def upcoming (board : AlertBoard) (now : Nat) (kind : AlertKind) (message : String) : Alert :=
  ⟨board.nextId, kind, message, now⟩

def add (board : AlertBoard) (alert : Alert) : AlertBoard :=
  { board with visible := board.visible ++ [alert], nextId := board.nextId + 1 }

def shows (board : AlertBoard) (id : Nat) : Bool :=
  board.visible.any fun a => a.id == id

def remove (board : AlertBoard) (id : Nat) : AlertBoard :=
  { board with visible := board.visible.filter fun a => a.id != id }

theorem remove_of_not_shows {board : AlertBoard} {id : Nat} (h : board.shows id = false) :
    board.remove id = board := by
  have : (board.visible.filter fun a => a.id != id) = board.visible := by
    refine List.filter_eq_self.2 fun a ha => ?_
    have := List.any_eq_false.1 h a ha
    simpa using this
  simp [remove, this]

end AlertBoard

end EngineConsole
