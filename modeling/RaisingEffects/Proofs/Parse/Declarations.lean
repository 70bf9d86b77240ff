import RaisingEffects.Parse.Program

/-!
# Names of declarations, and runs of readers

A source that is read has what the check of it relies on: the parameters of a function have
different names, its forwards list names parameters only (`FunDecl.WellNamed`), and the functions of
a program have different names (`Program.WellNamed`).

A reader that reads one thing after the other fails or returns with the last of them
(`Parse.bind_eq_ok`, `Parse.bind_eq_error`). A text is read through its characters
(`Program.parse_eq_ofChars`), which is how a written source is evaluated. That it is read, as
something with a given property, is then decided.
-/

namespace RaisingEffects

/-- The parameters of a function have different names, and it forwards parameters only. -/
structure FunDecl.WellNamed {α : Type} (g : FunDecl α) : Prop where
  nodup : (g.params.map Param.name).Nodup
  forwards : ∀ name ∈ g.forwards, name ∈ g.params.map Param.name

/-- The functions of a program have different names, and each of them is well named. -/
structure Program.WellNamed {α : Type} (p : Program α) : Prop where
  nodup : (p.functions.map FunDecl.name).Nodup
  functions : ∀ g ∈ p.functions, g.WellNamed

section Outcomes

variable {ε α β : Type} {x : Except ε α} {f : α → Except ε β}

theorem except_bind_eq_ok {b : β} (h : (x >>= f) = .ok b) : ∃ a, x = .ok a ∧ f a = .ok b := by
  cases x with
  | error e => cases h
  | ok a => exact ⟨a, rfl, h⟩

theorem except_bind_eq_error {e : ε} (h : (x >>= f) = .error e) :
    x = .error e ∨ ∃ a, x = .ok a ∧ f a = .error e := by
  cases x with
  | error e' =>
    cases h
    exact .inl rfl
  | ok a => exact .inr ⟨a, rfl, h⟩

end Outcomes

namespace Parse

variable {α β : Type} {p : Parse α} {f : α → Parse β}

theorem bind_eq_ok {s s' : ParseState} {b : β} (h : (p >>= f) s = .ok (b, s')) :
    ∃ a s₁, p s = .ok (a, s₁) ∧ f a s₁ = .ok (b, s') := by
  obtain ⟨⟨a, s₁⟩, hp, hf⟩ := except_bind_eq_ok h
  exact ⟨a, s₁, hp, hf⟩

theorem bind_eq_error {s : ParseState} {e : ParseFailure} (h : (p >>= f) s = .error e) :
    p s = .error e ∨ ∃ a s₁, p s = .ok (a, s₁) ∧ f a s₁ = .error e := by
  rcases except_bind_eq_error h with hp | ⟨⟨a, s₁⟩, hp, hf⟩
  · exact .inl hp
  · exact .inr ⟨a, s₁, hp, hf⟩

end Parse

/-! ## Texts as characters -/

def Program.ofChars (cs : List Char) : Except ParseFailure Reading :=
  match Token.readFrom cs.length .start cs with
  | .ok tokens => Program.ofTokens tokens
  | .error e => .error (.ofLexError e)

theorem Program.parse_eq_ofChars (source : String) {cs : List Char}
    (h : source = String.ofList cs) : Program.parse source = Program.ofChars cs := by
  rw [h, Program.parse, Token.readAll, String.toList_ofList]
  rfl

instance decidableExistsOk {ε α : Type} (x : Except ε α) (P : α → Prop) [DecidablePred P] :
    Decidable (∃ a, x = .ok a ∧ P a) :=
  match x with
  | .error _ => isFalse (by simp)
  | .ok a => decidable_of_iff (P a) (by simp)

/-- A source is read as its characters are found to be. -/
theorem Program.exists_reading (source : String) (P : Reading → Prop) {cs : List Char}
    (hsource : source = String.ofList cs) (h : ∃ r, Program.ofChars cs = .ok r ∧ P r) :
    ∃ r, Program.parse source = .ok r ∧ P r :=
  parse_eq_ofChars source hsource ▸ h

end RaisingEffects
