/-!
# Computations with a journal

A request asks its collaborators one question after another, and it may be cut short by a
fault.  `Recorded ι ε α` is such a computation carried out: the events of type `ι` in the order
in which they happened, and how it ended.  What happened before a fault stays in the journal;
nothing happens after it.
-/

namespace EntityLinking

/-- What a computation did on its way, oldest first, and how it ended. -/
structure Recorded (ι ε α : Type) where
  events : List ι
  outcome : Except ε α

namespace Recorded

variable {ι κ ε φ α β : Type}

def done (a : α) : Recorded ι ε α :=
  ⟨[], .ok a⟩

def fail (e : ε) : Recorded ι ε α :=
  ⟨[], .error e⟩

def note (i : ι) : Recorded ι ε Unit :=
  ⟨[i], .ok ()⟩

def notes (is : List ι) : Recorded ι ε Unit :=
  ⟨is, .ok ()⟩

/-- Ends as a given result does. -/
def ofExcept (r : Except ε α) : Recorded ι ε α :=
  ⟨[], r⟩

/-- Carries on with the value of the first computation, unless that ended with a fault. -/
def andThen (x : Recorded ι ε α) (f : α → Recorded ι ε β) : Recorded ι ε β :=
  match x.outcome with
  | .error e => ⟨x.events, .error e⟩
  | .ok a =>
    let y := f a
    ⟨x.events ++ y.events, y.outcome⟩

instance : Monad (Recorded ι ε) where
  pure := done
  bind := andThen

def mapEvents (f : ι → κ) (x : Recorded ι ε α) : Recorded κ ε α :=
  ⟨x.events.map f, x.outcome⟩

def mapFault (f : ε → φ) (x : Recorded ι ε α) : Recorded ι φ α :=
  ⟨x.events, x.outcome.mapError f⟩

@[simp] theorem pure_eq (a : α) : (pure a : Recorded ι ε α) = ⟨[], .ok a⟩ := rfl

@[simp] theorem bind_eq (x : Recorded ι ε α) (f : α → Recorded ι ε β) : (x >>= f) = x.andThen f :=
  rfl

@[simp] theorem andThen_error (is : List ι) (e : ε) (f : α → Recorded ι ε β) :
    andThen ⟨is, .error e⟩ f = ⟨is, .error e⟩ := rfl

@[simp] theorem andThen_ok (is : List ι) (a : α) (f : α → Recorded ι ε β) :
    andThen ⟨is, .ok a⟩ f = ⟨is ++ (f a).events, (f a).outcome⟩ := rfl

/-- The outcomes follow the law of computations that may fail, whatever the journals hold. -/
theorem outcome_andThen (x : Recorded ι ε α) (f : α → Recorded ι ε β) :
    (x.andThen f).outcome = x.outcome.bind fun a => (f a).outcome := by
  obtain ⟨is, e | a⟩ := x <;> rfl

/-- A computation carried on ends well exactly when both of its parts do. -/
theorem outcome_andThen_eq_ok_iff {x : Recorded ι ε α} {f : α → Recorded ι ε β} {b : β} :
    (x.andThen f).outcome = .ok b ↔ ∃ a, x.outcome = .ok a ∧ (f a).outcome = .ok b := by
  obtain ⟨is, e | a⟩ := x <;> simp

theorem andThen_of_ok {x : Recorded ι ε α} {a : α} (h : x.outcome = .ok a)
    (f : α → Recorded ι ε β) : x.andThen f = ⟨x.events ++ (f a).events, (f a).outcome⟩ := by
  obtain ⟨is, r⟩ := x
  obtain rfl : r = .ok a := h
  rfl

theorem andThen_of_error {x : Recorded ι ε α} {e : ε} (h : x.outcome = .error e)
    (f : α → Recorded ι ε β) : x.andThen f = ⟨x.events, .error e⟩ := by
  obtain ⟨is, r⟩ := x
  obtain rfl : r = .error e := h
  rfl

/-- What happens in a computation carried on happens in its first part, or in the second if it comes
to that. -/
theorem mem_events_andThen {x : Recorded ι ε α} {f : α → Recorded ι ε β} {i : ι} :
    i ∈ (x.andThen f).events ↔ i ∈ x.events ∨ ∃ a, x.outcome = .ok a ∧ i ∈ (f a).events := by
  obtain ⟨is, e | a⟩ := x <;> simp

/-- Only the value that a computation has is carried on with. -/
theorem andThen_congr {x : Recorded ι ε α} {f g : α → Recorded ι ε β}
    (h : ∀ a, x.outcome = .ok a → f a = g a) : x.andThen f = x.andThen g := by
  obtain ⟨is, e | a⟩ := x
  · rfl
  · rw [andThen_ok, andThen_ok, h a rfl]

theorem andThen_assoc {γ : Type} (x : Recorded ι ε α) (f : α → Recorded ι ε β)
    (g : β → Recorded ι ε γ) : (x.andThen f).andThen g = x.andThen fun a => (f a).andThen g := by
  obtain ⟨is, e | a⟩ := x
  · rfl
  · simp only [andThen_ok]
    obtain ⟨js, e | b⟩ := f a
    · simp
    · simp

theorem map_id (x : Recorded ι ε α) : id <$> x = x := by
  obtain ⟨is, e | a⟩ := x <;> simp [Functor.map, andThen, done]

theorem pure_andThen (a : α) (f : α → Recorded ι ε β) : (done a).andThen f = f a := by
  simp [done]

instance : LawfulMonad (Recorded ι ε) :=
  LawfulMonad.mk' _ map_id pure_andThen andThen_assoc

end Recorded
end EntityLinking
