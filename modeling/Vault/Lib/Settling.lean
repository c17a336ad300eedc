import Vault.Lib.Script

/-! When the exit of a session loses nothing. What a program does to the bare state, in order, is a
list of marks; read in a transaction or out of one, they say whether a change still waits for a
commit at the end. -/

namespace Vault.Lib

open Vault.Lib.Transaction

variable {σ ε N ρ α β : Type} {Q : Type → Type}

inductive Mark
  | look | change | commit
  deriving DecidableEq, Repr

inductive Stage
  | closed | clean | dirty
  deriving DecidableEq, Repr

def Stage.next : Stage → Mark → Stage
  | .closed, .look => .clean
  | .closed, .change => .closed
  | .clean, .look => .clean
  | .clean, .change => .dirty
  | .dirty, .look => .dirty
  | .dirty, .change => .dirty
  | _, .commit => .closed

def Stage.after (g : Stage) (ms : List Mark) : Stage := ms.foldl Stage.next g

/-- After its last commit the program changes nothing once it has queried. -/
def Settled (ms : List Mark) : Prop := Stage.closed.after ms ≠ .dirty

instance (ms : List Mark) : Decidable (Settled ms) := inferInstanceAs (Decidable (_ ≠ _))

def Session.stage (s : Session σ) : Stage :=
  if s.inTransaction then if s.unsaved = [] then .clean else .dirty else .closed

variable [DecidableEq σ]

namespace Script

variable (serve : ∀ {β : Type}, Q β → ρ → β × ρ)

end Script

end Vault.Lib
