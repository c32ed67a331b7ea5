import RecordGraph.Failure.Basic

/-!
# Effects

What an operation does to the state of its storage, and how it ends. What was changed before a
failure stays changed, unless it is undone on purpose.
-/

namespace RecordGraph

/-- An effect on a state that may fail. -/
abbrev Act (σ : Type) := ExceptT Failure (StateM σ)

namespace Act

variable {σ α : Type}

/-- The outcome of an effect, failures included, as a value. -/
def attempt (act : Act σ α) : Act σ (Except Failure α) :=
  ExceptT.mk (do
    let outcome ← act.run
    return .ok outcome)

def ofExcept (outcome : Except Failure α) : Act σ α := ExceptT.mk (pure outcome)

instance : MonadLift (Except Failure) (Act σ) := ⟨ofExcept⟩

def runOn (act : Act σ α) (state : σ) : Except Failure α × σ := StateT.run (ExceptT.run act) state

end Act

end RecordGraph
