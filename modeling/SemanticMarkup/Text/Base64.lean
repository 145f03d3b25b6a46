/-!
# Base 64

Bytes written as digits of six bits each: capitals, small letters, decimal
digits, `+` and `/`. Four digits write three bytes; equals signs fill up the last
group. Other characters are skipped, and so is padding where no group can end.
-/

namespace SemanticMarkup.Text

/-- The value of a digit. -/
def sixBits? (c : Char) : Option Nat :=
  let code := c.toNat
  if 65 ≤ code ∧ code ≤ 90 then some (code - 65)
  else if 97 ≤ code ∧ code ≤ 122 then some (code - 71)
  else if 48 ≤ code ∧ code ≤ 57 then some (code + 4)
  else if c = '+' then some 62
  else if c = '/' then some 63
  else none

/-- The bytes that a group of two, three or four digits writes. -/
def groupBytes : List Nat → List Nat
  | a :: b :: rest =>
      (a * 4 + b / 16) :: match rest with
        | [] => []
        | c :: rest => (b % 16 * 16 + c / 4) :: match rest with
            | [] => []
            | d :: _ => [c % 4 * 64 + d]
  | _ => []

/-- The bytes that a text writes, behind the digits of an unfinished group and the padding that
follows them. A group that is not filled up makes the text invalid. -/
def base64From? (group : List Nat) (padding : Nat) : List Char → Option (List Nat)
  | [] => if group.isEmpty then some [] else none
  | c :: rest =>
      if c = '=' then
        if group.length < 2 then base64From? group padding rest
        else if 4 ≤ group.length + padding + 1 then some (groupBytes group)
        else base64From? group (padding + 1) rest
      else match sixBits? c with
        | none => base64From? group padding rest
        | some d =>
            let group := group ++ [d]
            if group.length = 4 then (base64From? [] 0 rest).map (groupBytes group ++ ·)
            else base64From? group 0 rest

/-- The bytes that a text writes. -/
def base64? (cs : List Char) : Option (List Nat) :=
  base64From? [] 0 cs

end SemanticMarkup.Text
