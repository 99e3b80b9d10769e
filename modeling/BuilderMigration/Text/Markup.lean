/-! Console markup: styles are tags in brackets, and text that looks like a tag is escaped. -/

namespace BuilderMigration.Markup

/-- The tag at the head of a text, brackets included, and what follows it: a lower-case letter, `#`,
`/` or `@` behind the opening bracket, and no further opening bracket before the closing one. -/
def tag? : List Char → Option (List Char × List Char)
  | '[' :: c :: cs =>
    if ('a' ≤ c && c ≤ 'z') || c == '#' || c == '/' || c == '@' then
      let inner := cs.takeWhile fun d => d != '[' && d != ']'
      match cs.drop inner.length with
      | ']' :: rest => some ('[' :: c :: (inner ++ [']']), rest)
      | _ => none
    else none
  | _ => none

/-- Escapes the tags of a text before which `slashes` backslashes stand: those are doubled, and one
more marks the tag as text. Inside a tag nothing is escaped; `inTag` counts what is left of it. -/
def escapeFrom (slashes inTag : Nat) : List Char → List Char
  | [] => List.replicate slashes '\\'
  | c :: cs =>
    match inTag with
    | n + 1 => c :: escapeFrom 0 n cs
    | 0 =>
      if c = '\\' then escapeFrom (slashes + 1) 0 cs
      else
        match tag? (c :: cs) with
        | some (tag, _) =>
          List.replicate (2 * slashes + 1) '\\' ++ c :: escapeFrom 0 (tag.length - 1) cs
        | none => List.replicate slashes '\\' ++ c :: escapeFrom 0 0 cs

/-- Whether a text ends with one backslash only. -/
def endsBare (cs : List Char) : Bool :=
  match cs.reverse with
  | '\\' :: '\\' :: _ => false
  | '\\' :: _ => true
  | _ => false

/-- A text that shows as itself. A single backslash at its end is doubled, so that it does not
escape what comes behind. -/
def escape (s : String) : String :=
  let escaped := escapeFrom 0 0 s.toList
  String.ofList (if endsBare escaped then escaped ++ ['\\'] else escaped)

/-- The text that shows where `slashes` backslashes stand before it and `skipped` characters of a
tag are still to come. Two backslashes show as one, and an odd one shows the tag behind it as
text. -/
def shownFrom (slashes skipped : Nat) : List Char → List Char
  | [] => List.replicate slashes '\\'
  | c :: cs =>
    match skipped with
    | n + 1 => shownFrom 0 n cs
    | 0 =>
      if c = '\\' then shownFrom (slashes + 1) 0 cs
      else
        match tag? (c :: cs) with
        | none => List.replicate slashes '\\' ++ c :: shownFrom 0 0 cs
        | some (tag, _) =>
          List.replicate (slashes / 2) '\\'
            ++ if slashes % 2 = 1 then c :: shownFrom 0 0 cs else shownFrom 0 (tag.length - 1) cs

/-- What a text with markup shows, without its styles. -/
def shown (s : String) : String := String.ofList (shownFrom 0 0 s.toList)

end BuilderMigration.Markup
