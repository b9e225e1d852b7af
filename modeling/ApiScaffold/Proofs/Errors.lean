/-! Computations that may fail: where they end well, and what can go wrong in them. -/
namespace ApiScaffold
variable {ε ε' α β : Type} {kind : ε → Prop}

@[simp] theorem except_ok_bind (a : α) (f : α → Except ε β) : (.ok a >>= f : Except ε β) = f a :=
  rfl

@[simp] theorem except_error_bind (e : ε) (f : α → Except ε β) :
    (.error e >>= f : Except ε β) = .error e :=
  rfl

theorem except_throw_bind (e : ε) (f : α → Except ε β) : (throw e >>= f : Except ε β) = .error e :=
  rfl

theorem except_bind_eq_ok_iff {x : Except ε α} {f : α → Except ε β} {b : β} :
    x >>= f = .ok b ↔ ∃ a, x = .ok a ∧ f a = .ok b := by
  cases x <;> simp

/-- What goes wrong in a computation, if anything does, is of some kind. -/
def ErrsOnly (kind : ε → Prop) (x : Except ε α) : Prop :=
  ∀ e, x = .error e → kind e

theorem errsOnly_ok (a : α) : ErrsOnly kind (.ok a : Except ε α) :=
  fun _ h => by cases h

theorem errsOnly_error {e : ε} (h : kind e) : ErrsOnly kind (.error e : Except ε α) := by
  rintro f hf
  obtain rfl := Except.error.inj hf
  exact h

theorem ErrsOnly.bind {x : Except ε α} {f : α → Except ε β} (hx : ErrsOnly kind x)
    (hf : ∀ a, ErrsOnly kind (f a)) : ErrsOnly kind (x >>= f) := by
  cases x with
  | ok a => exact hf a
  | error e => exact errsOnly_error (hx e rfl)

theorem ErrsOnly.mapM {f : α → Except ε β} {as : List α} (h : ∀ a ∈ as, ErrsOnly kind (f a)) :
    ErrsOnly kind (as.mapM f) := by
  induction as with
  | nil => exact errsOnly_ok _
  | cons a as ih =>
    rw [List.mapM_cons]
    refine (h a List.mem_cons_self).bind fun _ => ?_
    exact (ih fun b hb => h b (List.mem_cons_of_mem a hb)).bind fun _ => errsOnly_ok _

theorem ErrsOnly.mapError {kind' : ε' → Prop} {g : ε → ε'} {x : Except ε α} (hx : ErrsOnly kind x)
    (hg : ∀ e, kind e → kind' (g e)) : ErrsOnly kind' (x.mapError g) := by
  cases x with
  | ok a => exact errsOnly_ok a
  | error e => exact errsOnly_error (hg e (hx e rfl))

end ApiScaffold
