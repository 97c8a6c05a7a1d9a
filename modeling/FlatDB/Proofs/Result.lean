/-
# Results that may be errors

The equations of sequencing for results.  A result is followed by the next
computation if it is a value and ends the sequence if it is an error; further lemmas
take a sequence apart again by what it came to.
-/

import Mathlib.Data.List.Forall2

namespace FlatDB

namespace Result

variable {ε α β : Type}

@[simp]
theorem ok_bind (a : α) (f : α → Except ε β) : (.ok a >>= f : Except ε β) = f a := rfl

@[simp]
theorem error_bind (e : ε) (f : α → Except ε β) : (.error e >>= f : Except ε β) = .error e := rfl

@[simp]
theorem pure_eq_ok (a : α) : (pure a : Except ε α) = .ok a := rfl

@[simp]
theorem throw_eq_error (e : ε) : (throw e : Except ε α) = .error e := rfl

@[simp]
theorem map_ok (f : α → β) (a : α) : (f <$> .ok a : Except ε β) = .ok (f a) := rfl

@[simp]
theorem map_error (f : α → β) (e : ε) : (f <$> .error e : Except ε β) = .error e := rfl

/-- What is asked of the value of a result is asked of nothing if the result is an error. -/
theorem of_error {e : ε} {P : α → Prop} : ∀ a, (.error e : Except ε α) = .ok a → P a :=
  nofun

/-- A sequence comes to a value only through a value of its first part. -/
theorem bind_eq_ok {x : Except ε α} {f : α → Except ε β} {b : β} :
    x >>= f = .ok b ↔ ∃ a, x = .ok a ∧ f a = .ok b := by
  cases x with
  | ok a => simp
  | error e => simp

/-- A sequence ends in an error with its first part or after a value of it. -/
theorem bind_eq_error {x : Except ε α} {f : α → Except ε β} {e : ε} :
    x >>= f = .error e ↔ x = .error e ∨ ∃ a, x = .ok a ∧ f a = .error e := by
  cases x with
  | ok a => simp
  | error e' => simp

/-- What every round of a loop keeps up holds of the value the loop comes to. -/
theorem of_foldlM_eq_ok {P : β → Prop} {f : β → α → Except ε β}
    (round : ∀ b a b', P b → f b a = .ok b' → P b') {l : List α} {b b' : β} (holds : P b)
    (h : l.foldlM f b = .ok b') : P b' := by
  induction l generalizing b with
  | nil =>
      cases h
      exact holds
  | cons a l ih =>
      rw [List.foldlM_cons] at h
      obtain ⟨next, made, h⟩ := bind_eq_ok.1 h
      exact ih (round b a next holds made) h

@[simp]
theorem isOk_ok (a : α) : (.ok a : Except ε α).isOk = true := rfl

@[simp]
theorem isOk_error (e : ε) : (.error e : Except ε α).isOk = false := rfl

theorem isOk_iff {x : Except ε α} : x.isOk = true ↔ ∃ a, x = .ok a := by
  cases x <;> simp

theorem exists_of_any {x : Except ε α} {p : α → Bool} (h : x.toOption.any p = true) :
    ∃ a, x = .ok a ∧ p a = true := by
  cases x with
  | ok a => exact ⟨a, rfl, h⟩
  | error e => cases h

/-! ## Lists -/

variable {f : α → Except ε β} {l : List α}

/-- Lists are made of lists element by element. -/
theorem mapM_eq_ok {l' : List β} :
    l.mapM f = .ok l' ↔ List.Forall₂ (fun a b => f a = .ok b) l l' := by
  induction l generalizing l' with
  | nil => cases l' <;> simp
  | cons a l ih =>
      rw [List.mapM_cons, bind_eq_ok, List.forall₂_cons_left_iff]
      simp only [bind_eq_ok, ih, pure_eq_ok, Except.ok.injEq]
      exact ⟨fun ⟨b, first, rest, more, same⟩ => ⟨b, rest, first, more, same.symm⟩,
        fun ⟨b, rest, first, more, same⟩ => ⟨b, first, rest, more, same.symm⟩⟩

/-- What is made of each element of a list comes from an element. -/
theorem exists_of_mapM_eq_ok {l' : List β} (h : l.mapM f = .ok l') {y : β} (mem : y ∈ l') :
    ∃ x ∈ l, f x = .ok y := by
  have made := mapM_eq_ok.1 h
  clear h
  induction made with
  | nil => cases mem
  | @cons x _ l _ first _ ih =>
      rcases List.mem_cons.1 mem with rfl | mem
      · exact ⟨x, List.mem_cons_self, first⟩
      · obtain ⟨x', mem', made'⟩ := ih mem
        exact ⟨x', List.mem_cons_of_mem x mem', made'⟩

/-- Something is made of a list just if something is made of each element. -/
theorem isOk_mapM : (l.mapM f).isOk = true ↔ ∀ a ∈ l, (f a).isOk = true := by
  induction l with
  | nil => simp
  | cons a l ih =>
      rw [List.mapM_cons, List.forall_mem_cons, ← ih]
      cases f a with
      | error e => simp
      | ok b => cases l.mapM f <;> simp

end Result

end FlatDB
