import Mathlib.Data.List.Induction

/-!
# What has happened since

`Since P Q h` says of a history that an event as `P` says has happened in it and none as `Q` says
since then. Histories grow at their end, so statements with `Since` are carried along a run by
`Since.snoc_iff`.
-/

namespace RelayFleet

/-- An event as `P` says has happened, and none as `Q` says after it. -/
def Since {ε : Type} (P Q : ε → Prop) (h : List ε) : Prop :=
  ∃ h₁ e h₂, h = h₁ ++ e :: h₂ ∧ P e ∧ ∀ f ∈ h₂, ¬ Q f

namespace Since

variable {ε : Type} {P Q P' Q' R : ε → Prop} {h : List ε} {e : ε}

/-- At the beginning nothing has happened. -/
theorem not_nil : ¬ Since P Q [] := by
  rintro ⟨h₁, e, h₂, heq, -⟩
  simp at heq

/-- One more event is as `P` says, or there was one before and this one is not as `Q` says. -/
theorem snoc_iff : Since P Q (h ++ [e]) ↔ P e ∨ Since P Q h ∧ ¬ Q e := by
  constructor
  · rintro ⟨h₁, f, h₂, heq, hf, hnone⟩
    rcases List.eq_nil_or_concat h₂ with rfl | ⟨h₂, e', rfl⟩
    · obtain ⟨-, heq⟩ := List.append_inj' heq rfl
      cases heq
      exact .inl hf
    · have hsnoc : h ++ [e] = (h₁ ++ f :: h₂) ++ [e'] := by simpa using heq
      obtain ⟨rfl, hlast⟩ := List.append_inj' hsnoc rfl
      cases hlast
      exact .inr ⟨⟨h₁, f, h₂, rfl, hf, fun g hg => hnone g (by simp [hg])⟩, hnone e (by simp)⟩
  · rintro (he | ⟨⟨h₁, f, h₂, rfl, hf, hnone⟩, he⟩)
    · exact ⟨h, e, [], rfl, he, by simp⟩
    · refine ⟨h₁, f, h₂ ++ [e], by simp, hf, fun g hg => ?_⟩
      rcases List.mem_append.mp hg with hg | hg
      · exact hnone g hg
      · exact List.mem_singleton.mp hg ▸ he

/-- More events may be looked for, and fewer be excluded since. -/
theorem mono (hs : Since P Q h) (hP : ∀ e, P e → P' e) (hQ : ∀ e, Q' e → Q e) : Since P' Q' h := by
  obtain ⟨h₁, e, h₂, rfl, he, hnone⟩ := hs
  exact ⟨h₁, e, h₂, rfl, hP e he, fun f hf hq => hnone f hf (hQ f hq)⟩

/-- The event is one as `R` says or it is not. -/
theorem and_or (hs : Since P Q h) (R : ε → Prop) :
    Since (fun e => P e ∧ R e) Q h ∨ Since (fun e => P e ∧ ¬ R e) Q h := by
  obtain ⟨h₁, e, h₂, rfl, he, hnone⟩ := hs
  by_cases hr : R e
  · exact .inl ⟨h₁, e, h₂, rfl, ⟨he, hr⟩, hnone⟩
  · exact .inr ⟨h₁, e, h₂, rfl, ⟨he, hr⟩, hnone⟩

/-- Among the events as `P` says there is a last one. -/
theorem last (hs : Since P Q h) : Since P (fun e => P e ∨ Q e) h := by
  induction h using List.reverseRecOn with
  | nil => exact absurd hs not_nil
  | append_singleton h e ih =>
    rw [snoc_iff] at hs ⊢
    by_cases he : P e
    · exact .inl he
    · obtain ⟨hs, hq⟩ := hs.resolve_left he
      exact .inr ⟨ih hs, by simp [he, hq]⟩

/-- Nothing as `R` says has happened either, or something as `R` says has, and nothing as `Q` says
since. -/
theorem or_since (hs : Since P Q h) : Since P (fun e => Q e ∨ R e) h ∨ Since R Q h := by
  induction h using List.reverseRecOn with
  | nil => exact absurd hs not_nil
  | append_singleton h e ih =>
    simp only [snoc_iff] at hs ⊢
    rcases hs with he | ⟨hs, hq⟩
    · exact .inl (.inl he)
    · by_cases hr : R e
      · exact .inr (.inl hr)
      · rcases ih hs with hs | hs
        · exact .inl (.inr ⟨hs, by simp [hq, hr]⟩)
        · exact .inr (.inr ⟨hs, hq⟩)

/-- Two events of which each excludes that the other has come later are one. -/
theorem meet (hs : Since P Q h) (hs' : Since P' Q' h) (hP : ∀ e, P e → Q' e)
    (hP' : ∀ e, P' e → Q e) : ∃ e ∈ h, P e ∧ P' e := by
  induction h using List.reverseRecOn with
  | nil => exact absurd hs not_nil
  | append_singleton h e ih =>
    rw [snoc_iff] at hs hs'
    rcases hs with he | ⟨hs, hq⟩ <;> rcases hs' with he' | ⟨hs', hq'⟩
    · exact ⟨e, by simp, he, he'⟩
    · exact absurd (hP e he) hq'
    · exact absurd (hP' e he') hq
    · obtain ⟨f, hf, hboth⟩ := ih hs hs'
      exact ⟨f, List.mem_append_left _ hf, hboth⟩

end Since

end RelayFleet
