/-!
# Programs that ask

A program is a tree: it ends with a value, or it asks a question and goes on with whatever it is
answered. What a question means is left to the one who runs the program, so the same program can be
run alone, be interleaved with others question by question, or be reasoned about over every answer.
-/

namespace RelayFleet

/-- A program that asks questions of type `A`, `R a` being the answers to question `a`. -/
inductive Program {A : Type} (R : A → Type) (α : Type) where
  | pure (a : α)
  | ask (a : A) (next : R a → Program R α)

namespace Program

variable {A : Type} {R : A → Type} {α β : Type}

/-- Runs a second program with the value that the first one ends with. -/
def bind (p : Program R α) (f : α → Program R β) : Program R β :=
  match p with
  | pure a => f a
  | ask a next => ask a fun r => (next r).bind f

instance : Monad (Program R) where
  pure := pure
  bind := bind

/-- A single question. -/
def question (a : A) : Program R (R a) := ask a pure

/-- Nothing comes of going on with the value alone. -/
theorem bind_pure (p : Program R α) : p.bind pure = p := by
  induction p with
  | pure a => rfl
  | ask a next ih => simp [bind, ih]

/-- It does not matter how programs that follow each other are grouped. -/
theorem bind_assoc {γ : Type} (p : Program R α) (f : α → Program R β) (g : β → Program R γ) :
    (p.bind f).bind g = p.bind fun a => (f a).bind g := by
  induction p with
  | pure a => rfl
  | ask a next ih => simp [bind, ih]

instance : LawfulMonad (Program R) :=
  LawfulMonad.mk' _ bind_pure (fun _ _ => rfl) bind_assoc

/-- Answers the questions one after the other, each in the state that the one before left. -/
def run {σ : Type} (answer : (a : A) → σ → R a × σ) (p : Program R α) (s : σ) : α × σ :=
  match p with
  | pure a => (a, s)
  | ask a next => (next (answer a s).1).run answer (answer a s).2

/-- A program that follows another one runs in the state that one left. -/
theorem run_bind {σ : Type} (answer : (a : A) → σ → R a × σ) (p : Program R α)
    (f : α → Program R β) (s : σ) :
    (p.bind f).run answer s = (f (p.run answer s).1).run answer (p.run answer s).2 := by
  induction p generalizing s with
  | pure a => rfl
  | ask a next ih => exact ih _ _

end Program

end RelayFleet
