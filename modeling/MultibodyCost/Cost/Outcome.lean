/-!
# Outcomes that leave data behind

An evaluation writes into data that its caller owns. It is done, or it stops at a fault; in both
cases it leaves data behind, and after a fault that may be data on which only part of the work was
done. Evaluations are put one after another by `andThen`; what comes after a fault does not happen.
-/

namespace MultibodyCost

/-- Data left behind, and the fault at which the evaluation stopped, if it did. -/
inductive Outcome (ε σ : Type) where
  | done (data : σ)
  | stopped (data : σ) (fault : ε)

namespace Outcome

variable {ε σ τ ι : Type}

def data : Outcome ε σ → σ
  | done d => d
  | stopped d _ => d

def fault? : Outcome ε σ → Option ε
  | done _ => none
  | stopped _ e => some e

def andThen (o : Outcome ε σ) (next : σ → Outcome ε σ) : Outcome ε σ :=
  match o with
  | done d => next d
  | stopped d e => stopped d e

def map (f : σ → τ) : Outcome ε σ → Outcome ε τ
  | done d => done (f d)
  | stopped d e => stopped (f d) e

/-- A step that changes the data only if it succeeds. -/
def attempt (d : σ) : Except ε σ → Outcome ε σ
  | .ok d' => done d'
  | .error e => stopped d e

/-- A step that first reads something, and stops on the data as it is by then if it cannot. -/
def reading {β : Type} (d : σ) (x : Except ε β) (next : β → Outcome ε σ) : Outcome ε σ :=
  match x with
  | .ok b => next b
  | .error e => stopped d e

def forEach (xs : List ι) (d : σ) (step : ι → σ → Outcome ε σ) : Outcome ε σ :=
  match xs with
  | [] => done d
  | x :: xs => (step x d).andThen fun d => forEach xs d step

@[simp] theorem data_done (d : σ) : (done d : Outcome ε σ).data = d := rfl

@[simp] theorem data_stopped (d : σ) (e : ε) : (stopped d e).data = d := rfl

@[simp] theorem andThen_done (d : σ) (next : σ → Outcome ε σ) :
    (done d).andThen next = next d := rfl

@[simp] theorem andThen_stopped (d : σ) (e : ε) (next : σ → Outcome ε σ) :
    (stopped d e).andThen next = stopped d e := rfl

theorem andThen_assoc (o : Outcome ε σ) (f g : σ → Outcome ε σ) :
    (o.andThen f).andThen g = o.andThen fun d => (f d).andThen g := by
  cases o <;> rfl

end Outcome

end MultibodyCost
