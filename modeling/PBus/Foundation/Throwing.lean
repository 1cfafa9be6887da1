/-! Computations that may throw: in `Except`, and with a state that keeps what was done before. -/
namespace Throwing

section Values
variable {E A B : Type} {m : Except E A} {f : A → Except E B} {b : B}

theorem ok_bind (a : A) (f : A → Except E B) : (Except.ok a >>= f) = f a := rfl

theorem ok_of_bind (result : (m >>= f) = .ok b) : ∃ a, m = .ok a ∧ f a = .ok b := by
  cases m with
  | error e => contradiction
  | ok a => exact ⟨a, rfl, result⟩

end Values

section States
variable {E S A B : Type} {x : EStateM E S A} {f : A → EStateM E S B} {s s' : S} {a : A} {e : E}

theorem run_bind_ok (first : x s = .ok a s') : (x >>= f) s = f a s' := by
  change EStateM.bind x f s = _
  rw [EStateM.bind, first]

theorem run_bind_error (first : x s = .error e s') : (x >>= f) s = .error e s' := by
  change EStateM.bind x f s = _
  rw [EStateM.bind, first]

theorem run_tryCatch_ok (first : x s = .ok a s') (handle : E → EStateM E S A) :
    tryCatch x handle s = .ok a s' := by
  change EStateM.tryCatch x handle s = _
  delta EStateM.tryCatch
  simp only [first]

theorem run_tryCatch_error (first : x s = .error e s') (handle : E → EStateM E S A) :
    tryCatch x handle s = handle e s' := by
  change EStateM.tryCatch x handle s = _
  delta EStateM.tryCatch
  simp only [first]
  rfl

end States
end Throwing
