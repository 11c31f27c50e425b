/-!
# Pieces of a text

* `split`: the pieces of a text between the occurrences of a character;
* `split_ne_nil`: there is always one.
-/

namespace ApiClient.Text

/-- The pieces of a text between the occurrences of `sep`. There is always one. -/
def split (sep : Char) : List Char → List (List Char)
  | [] => [[]]
  | c :: rest =>
    if c = sep then [] :: split sep rest
    else
      match split sep rest with
      | [] => [[c]]
      | piece :: more => (c :: piece) :: more

theorem split_ne_nil (sep : Char) (s : List Char) : split sep s ≠ [] := by
  cases s with
  | nil => simp [split]
  | cons c rest =>
    simp only [split]
    split
    · simp
    · split <;> simp

end ApiClient.Text
