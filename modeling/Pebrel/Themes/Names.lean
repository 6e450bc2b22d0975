import Mathlib
import Pebrel.Themes.Validity

/-!
# Names and identifiers of themes

A theme that is added gets a name that no other theme has, and an identifier made of its name
(`theme_library/store.rs`). Both are found by trying suffixes. A name is cut so that it fits with
its suffix; an identifier is not.
-/

namespace Pebrel.Themes

open Library Sync List Nat Text Char

def maxCustomThemes : ℕ := 128

/-! ### Names -/

def truncateName : ℕ → Text → Text
  | _, [] => []
  | maxBytes, c :: t => if c.utf8Size ≤ maxBytes then c :: truncateName (maxBytes - c.utf8Size) t else []

def nameSuffix (n : ℕ) : Text := if n = 0 then [] else ' ' :: '(' :: (Nat.toDigits 10 (n + 1) ++ [')'])

/-- The name with a suffix. -/
def nameCandidate (base : Text) (n : ℕ) : Text := truncateName (128 - Text.byteLen (nameSuffix n)) base ++ nameSuffix n

def baseName (requested : Text) : Text := if Text.trim requested = [] then "Imported theme".toList else Text.trim requested

def uniqueName (requested : Text) (names : List Text) : Option Text :=
  ((List.range (maxCustomThemes + 2)).map (nameCandidate (baseName requested))).find? fun candidate =>
    candidate ≠ [] && !names.any fun name => Text.eqIgnoreAsciiCase name candidate

/-! ### Identifiers -/

/-- A character of a name. -/
def slugStep (output : Text) (c : Char) : Text :=
  if isIdChar c then output ++ [c.toLower]
  else if output.getLast? = some '-' then output
  else output ++ ['-']

def slug (t : Text) : Text :=
  let output := ((t.foldl slugStep []).dropWhile (· = '-')).rdropWhile (· = '-')
  if output = [] then "theme".toList else output.take 128

def idCandidate (base : Text) (suffix : ℕ) : Text := if suffix = 1 then base else base ++ '-' :: Nat.toDigits 10 suffix

/-! ### What names have -/

variable {c : Char} {t base requested name : Text} {n m : ℕ}

end Pebrel.Themes
