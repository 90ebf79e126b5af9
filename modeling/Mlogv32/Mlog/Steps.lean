import Mlogv32.Mlog.Arith

/-!
# Straight-line code in doubles

The values that a piece of straight-line code computes one after the other. Each of them is stored
in a double before the next operation reads it.
-/

namespace Mlogv32.Mlog

/-- Code that stores the value of an operation and goes on with what was stored. -/
inductive Steps (α : Type) where
  | done (a : α)
  | op (x : Int) (next : Int → Steps α)

namespace Steps

variable {α β : Type}

def bind : Steps α → (α → Steps β) → Steps β
  | .done a, k => k a
  | .op x next, k => .op x fun y => (next y).bind k

instance : Monad Steps where
  pure := .done
  bind := bind

/-- The result when each value is stored as `store` of it. -/
def run (store : Int → Int) : Steps α → α
  | .done a => a
  | .op x next => (next (store x)).run store

/-- The result on integers of any size. -/
def exact (p : Steps α) : α := p.run id

/-- The values of all operations, on integers of any size. -/
def values : Steps α → List Int
  | .done _ => []
  | .op x next => x :: (next x).values

@[simp] theorem exact_pure (a : α) : (pure a : Steps α).exact = a := rfl

@[simp] theorem exact_op (x : Int) (next : Int → Steps α) :
    (Steps.op x next).exact = (next x).exact := rfl

@[simp] theorem values_pure (a : α) : (pure a : Steps α).values = [] := rfl

@[simp] theorem values_op (x : Int) (next : Int → Steps α) :
    (Steps.op x next).values = x :: (next x).values := rfl

theorem run_bind (store : Int → Int) (p : Steps α) (k : α → Steps β) :
    (p >>= k).run store = (k (p.run store)).run store := by
  induction p with
  | done a => rfl
  | op x next ih => exact ih (store x)

@[simp] theorem exact_bind (p : Steps α) (k : α → Steps β) : (p >>= k).exact = (k p.exact).exact :=
  run_bind id p k

@[simp] theorem values_bind (p : Steps α) (k : α → Steps β) :
    (p >>= k).values = p.values ++ (k p.exact).values := by
  induction p with
  | done a => rfl
  | op x next ih => exact congrArg (x :: ·) (ih x)

/-- Doubles give the exact result when every value fits. -/
theorem run_toDouble {p : Steps α} (h : ∀ v ∈ p.values, Exact v) : p.run toDouble = p.exact := by
  induction p with
  | done a => rfl
  | op x next ih =>
      have hx : toDouble x = x := toDouble_of_exact (h x List.mem_cons_self)
      rw [run, hx]
      exact ih x fun v hv => h v (List.mem_cons_of_mem x hv)

/-- No value reaches `n` in magnitude. -/
def Below (n : Int) (p : Steps α) : Prop := ∀ v ∈ p.values, |v| < n

variable {n : Int}

theorem below_pure (a : α) : (pure a : Steps α).Below n := fun _ h => absurd h List.not_mem_nil

theorem Below.bind {p : Steps α} {k : α → Steps β} (hp : p.Below n) (hk : (k p.exact).Below n) :
    (p >>= k).Below n := by
  intro v hv
  rw [values_bind, List.mem_append] at hv
  exact hv.elim (hp v) (hk v)

theorem Below.run_toDouble {p : Steps α} (h : p.Below (2 ^ 53)) : p.run toDouble = p.exact := by
  refine Steps.run_toDouble fun v hv => ?_
  have hv := abs_lt.mp (h v hv)
  exact ⟨hv.1.le, hv.2.le⟩

end Steps

/-- The value of one operation. -/
def step (x : Int) : Steps Int := .op x .done

@[simp] theorem step_exact (x : Int) : (step x).exact = x := rfl

@[simp] theorem step_values (x : Int) : (step x).values = [x] := rfl

theorem step_below {n x : Int} (h : |x| < n) : (step x).Below n := by
  intro v hv
  rw [step_values, List.mem_singleton] at hv
  rwa [hv]

end Mlogv32.Mlog
