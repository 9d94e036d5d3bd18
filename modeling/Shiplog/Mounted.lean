import Shiplog.Action
import Shiplog.FileTree

/-!
Values that work over a file tree, and the actions on the tree and on the value.
-/
namespace Shiplog

/-- A value together with the file tree it works over. -/
structure Mounted (α : Type) where
  disk : FileTree
  item : α

namespace Mounted

variable {α β γ : Type}

def current : Action (Mounted α) α :=
  Action.reading fun m => .ok m.item

def update (change : α → α) : Action (Mounted α) Unit :=
  modify fun m => { m with item := change m.item }

def look (f : FileTree → Except Fault γ) : Action (Mounted α) γ :=
  Action.reading fun m => (f m.disk).mapError .io

/-- The tree changed, or left as it is by a fault. -/
def change (f : FileTree → Except Fault FileTree) : Action (Mounted α) Unit :=
  Action.ofStep fun m =>
    match f m.disk with
    | .ok disk => (.ok (), { m with disk })
    | .error fault => (.error (.io fault), m)

/-- The tree changed with an answer, or left as it is by a fault. -/
def produce (f : FileTree → Except Fault (γ × FileTree)) : Action (Mounted α) γ :=
  Action.ofStep fun m =>
    match f m.disk with
    | .ok (answer, disk) => (.ok answer, { m with disk })
    | .error fault => (.error (.io fault), m)

/-- A function that reads the tree and the value and may fail. -/
def reading (f : FileTree → α → Except Error γ) : Action (Mounted α) γ :=
  Action.reading fun m => f m.disk m.item

/-- An action on a part of the value, over the same tree. -/
def focus (part : α → β) (replace : α → β → α) (act : Action (Mounted β) γ) : Action (Mounted α) γ :=
  Action.focus (fun m => ⟨m.disk, part m.item⟩) (fun m p => ⟨p.disk, replace m.item p.item⟩) act

end Mounted
end Shiplog
