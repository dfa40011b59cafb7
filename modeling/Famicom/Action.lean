import Famicom.Event

/-!
Operations on a device. An operation may fail part of the way, and a failed operation leaves the
device as it was at that point; it also reports events, which never influence it.
-/

namespace Famicom

/-- What an operation leaves behind. -/
structure Outcome (ε σ α : Type) where
  answer : Except ε α
  state : σ
  events : List Event

/-- An operation on a device `σ` that answers `α` or fails with `ε`. -/
def Action (ε σ α : Type) : Type := σ → Outcome ε σ α

namespace Action

variable {ε δ σ τ α β : Type}

@[inline] protected def pure (a : α) : Action ε σ α := fun s => ⟨.ok a, s, []⟩

@[inline] protected def bind (x : Action ε σ α) (f : α → Action ε σ β) : Action ε σ β := fun s =>
  match x s with
  | ⟨.ok a, s, es⟩ =>
    match f a s with
    | ⟨r, s, es'⟩ => ⟨r, s, es ++ es'⟩
  | ⟨.error e, s, es⟩ => ⟨.error e, s, es⟩

@[always_inline]
instance : Monad (Action ε σ) where
  pure := Action.pure
  bind := Action.bind

/-- Fails, leaving the device alone. -/
@[inline] def fail (e : ε) : Action ε σ α := fun s => ⟨.error e, s, []⟩

@[inline] def report (e : Event) : Action ε σ Unit := fun s => ⟨.ok (), s, [e]⟩

/-- Answers something about the device. -/
@[inline] def view (f : σ → α) : Action ε σ α := fun s => ⟨.ok (f s), s, []⟩

/-- Answers something about the device, if it can be had. -/
@[inline] def inspect (f : σ → Except ε α) : Action ε σ α := fun s => ⟨f s, s, []⟩

@[inline] def update (f : σ → σ) : Action ε σ Unit := fun s => ⟨.ok (), f s, []⟩

/-- Renames the failures of an operation. -/
@[inline] def mapError (f : δ → ε) (x : Action δ σ α) : Action ε σ α := fun s =>
  match x s with
  | ⟨.ok a, s, es⟩ => ⟨.ok a, s, es⟩
  | ⟨.error e, s, es⟩ => ⟨.error (f e), s, es⟩

end Action

end Famicom
