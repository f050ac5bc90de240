import EntityStore.Text.Digits
import EntityStore.Text.Joining
import EntityStore.Text.Unprinted
/-!
# Quoted text

How a text appears inside the rendering of an identifier or entity: in double quotes, with the characters
that would break the quotation or the line written as escapes.  Characters that leave no mark of their own
(those that print nothing, and those that join the character before them) are written by number.
-/
namespace EntityStore.Quoted

/-- Characters without a mark of their own; none of them lies between the space and the tilde. -/
def isHidden (c : Char) : Bool :=
  (c < ' ' || '~' < c) && (Unprinted.isUnprinted c || Joining.isJoining c)

def escape (c : Char) : List Char :=
  match c with
  | '"' => ['\\', '"']
  | '\\' => ['\\', '\\']
  | '\n' => ['\\', 'n']
  | '\t' => ['\\', 't']
  | '\r' => ['\\', 'r']
  | '\x00' => ['\\', '0']
  | c => if isHidden c then "\\u\x7b".toList ++ (Digits.text 16 1 c.toNat).toList ++ ['}'] else [c]

def encode (s : String) : String := String.ofList ('"' :: s.toList.flatMap escape ++ ['"'])

end EntityStore.Quoted
