import Mathlib.Data.List.Basic

/-!
# Components

The components of a list are the pieces between its separators that are not empty.
Components of a list with a separator in it are those before it and those after it
(`components_append_cons`), and it does not matter which separators there are, or how many follow each other.
-/

namespace Pebrel.Library

open List

variable {α : Type*} (p : α → Bool)

/-- The pieces between separators that are not empty. -/
def components (l : List α) : List (List α) := (l.splitOnP p).filter fun piece => !piece.isEmpty

/-- It starts with a separator. -/
def startsSep (l : List α) : Bool := l.head?.any p

/-- It ends with a separator. -/
def endsSep (l : List α) : Bool := l.getLast?.any p

variable {p} {l m : List α} {sep : α}

@[simp] theorem components_nil : components p [] = [] := rfl

theorem components_append_cons (l m : List α) (hs : p sep = true) : components p (l ++ sep :: m) = components p l ++ components p m := by
  rw [components, splitOnP_append_cons l m hs, filter_append]
  rfl

theorem components_cons (m : List α) (hs : p sep = true) : components p (sep :: m) = components p m :=
  (components_append_cons [] m hs).trans (nil_append _)

theorem components_append_of_starts (l : List α) (h : startsSep p m = true) : components p (l ++ m) = components p l ++ components p m := by
  cases m with
  | nil => cases h
  | cons sep m =>
    have hs : p sep = true := h
    rw [components_append_cons l m hs, components_cons m hs]

theorem components_append_of_ends (m : List α) (h : endsSep p l = true) : components p (l ++ m) = components p l ++ components p m := by
  rcases eq_nil_or_concat l with rfl | ⟨l, sep, rfl⟩
  · cases h
  · have hs : p sep = true := by simpa [endsSep] using h
    rw [concat_eq_append, append_assoc, singleton_append, components_append_cons l m hs, components_append_cons l [] hs,
      components_nil, append_nil]

/-- Separators in a row have nothing between them. -/
theorem components_of_all (h : ∀ a ∈ l, p a = true) : components p l = [] := by
  induction l with
  | nil => rfl
  | cons a l ih =>
    obtain ⟨ha, hl⟩ := forall_mem_cons.mp h
    rw [components_cons l ha, ih hl]

/-- Separators at the end do not matter. -/
theorem components_append_of_all (l : List α) (h : ∀ a ∈ m, p a = true) : components p (l ++ m) = components p l := by
  cases m with
  | nil => rw [append_nil]
  | cons a m =>
    obtain ⟨ha, hm⟩ := forall_mem_cons.mp h
    rw [components_append_cons l m ha, components_of_all hm, append_nil]

/-- Separators at the start do not matter. -/
theorem components_dropWhile (l : List α) : components p (l.dropWhile p) = components p l := by
  induction l with
  | nil => rfl
  | cons a l ih =>
    by_cases ha : p a = true
    · rw [dropWhile_cons_of_pos ha, ih, components_cons l ha]
    · rw [dropWhile_cons_of_neg ha]

/-- Separators may be replaced by others. -/
theorem components_map {f : α → α} (hs : ∀ a, p a = true → p (f a) = true) (ho : ∀ a, p a = false → f a = a) (l : List α) :
    components p (l.map f) = components p l := by
  have hsp : (l.map f).splitOnP p = l.splitOnP p := by
    induction l with
    | nil => rfl
    | cons a l ih =>
      rw [map_cons, splitOnP_cons_eq_if_modifyHead, splitOnP_cons_eq_if_modifyHead, ih]
      by_cases ha : p a = true
      · rw [if_pos (hs a ha), if_pos ha]
      · rw [ho a (eq_false_of_ne_true ha)]
  rw [components, components, hsp]

end Pebrel.Library
