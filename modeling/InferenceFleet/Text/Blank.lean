/-!
# White space

The characters with the property White_Space, and the two uses made of them: trimming a text at
both ends and counting its words.
-/

namespace InferenceFleet

/-- White_Space, as the Unicode standard lists it. -/
def isBlank (c : Char) : Bool :=
  let n := c.toNat
  (0x09 ≤ n && n ≤ 0x0D) || n == 0x20 || n == 0x85 || n == 0xA0 || n == 0x1680 ||
    (0x2000 ≤ n && n ≤ 0x200A) || n == 0x2028 || n == 0x2029 || n == 0x202F || n == 0x205F ||
    n == 0x3000

/-- `cs` without the blanks at its two ends. -/
def trimBlanks (cs : List Char) : List Char :=
  ((cs.dropWhile isBlank).reverse.dropWhile isBlank).reverse

/-- What begins and ends with other characters is kept. -/
theorem trimBlanks_eq {c d : Char} {cs ds : List Char} (hfirst : isBlank c = false)
    (hlast : isBlank d = false) (h : c :: cs = ds ++ [d]) : trimBlanks (c :: cs) = c :: cs := by
  have hdrop : (c :: cs).dropWhile isBlank = c :: cs :=
    List.dropWhile_cons_of_neg (by rw [hfirst]; exact Bool.false_ne_true)
  rw [trimBlanks, hdrop, h, List.reverse_append, List.reverse_singleton, List.singleton_append,
    List.dropWhile_cons_of_neg (by rw [hlast]; exact Bool.false_ne_true), List.reverse_cons,
    List.reverse_reverse]

def trimmed (text : String) : String := String.ofList (trimBlanks text.toList)

/-- How many words follow, given whether the character before belongs to one. -/
def countWords (inWord : Bool) : List Char → Nat
  | [] => 0
  | c :: cs =>
    if isBlank c then countWords false cs
    else if inWord then countWords true cs
    else countWords true cs + 1

/-- The number of maximal runs of characters that are not blank. -/
def wordCount (text : String) : Nat := countWords false text.toList

end InferenceFleet
