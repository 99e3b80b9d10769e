/-! Blank characters, trimming and slicing of text. Positions in a text count code points. -/

namespace BuilderMigration.Text

/-- The characters that separate tokens and that trimming removes. -/
def isBlank (c : Char) : Bool :=
  let n := c.toNat
  (0x09 ≤ n && n ≤ 0x0D) || (0x1C ≤ n && n ≤ 0x20) || n == 0x85 || n == 0xA0 || n == 0x1680
    || (0x2000 ≤ n && n ≤ 0x200A) || n == 0x2028 || n == 0x2029 || n == 0x202F || n == 0x205F
    || n == 0x3000

/-- Drops the blanks at both ends. -/
def trimmed (cs : List Char) : List Char :=
  ((cs.dropWhile isBlank).reverse.dropWhile isBlank).reverse

/-- Drops the blanks at both ends of a string. -/
def trim (s : String) : String := String.ofList (trimmed s.toList)

/-- A text without blanks at its ends stays as it is. -/
theorem trim_ofList {cs : List Char} (hhead : ∀ c ∈ cs.head?, isBlank c = false)
    (hlast : ∀ c ∈ cs.getLast?, isBlank c = false) : trim (String.ofList cs) = String.ofList cs := by
  have hdrop {cs : List Char} (h : ∀ c ∈ cs.head?, isBlank c = false) : cs.dropWhile isBlank = cs := by
    cases cs with
    | nil => rfl
    | cons c cs => rw [List.dropWhile_cons_of_neg (by simp [h c rfl])]
  rw [trim, String.toList_ofList, trimmed, hdrop hhead, hdrop (by rwa [List.head?_reverse]),
    List.reverse_reverse]

/-- The characters from position `start` up to, not including, `stop`. -/
def slice (cs : List Char) (start stop : Nat) : List Char := (cs.drop start).take (stop - start)

end BuilderMigration.Text
