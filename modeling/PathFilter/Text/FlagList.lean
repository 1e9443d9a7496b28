import PathFilter.Text.Basic

set_option autoImplicit false
set_option relaxedAutoImplicit false

namespace PathFilter.Text

def joinWith (separator : Text) : List Text → Text
  | [] => []
  | [text] => text
  | text :: next :: rest => text ++ separator ++ joinWith separator (next :: rest)

/-- The members of a flag set under the name of the set; an empty set reads `NONE`. -/
def flagList (set : String) (flags : List (Bool × String)) : Text :=
  let members := flags.filterMap fun flag => if flag.1 then some flag.2.toList else none
  let body := if members.isEmpty then "NONE".toList else joinWith " | ".toList members
  set.toList ++ '(' :: body ++ [')']

/-- A number whose bits are the given flags, lowest bit first. -/
def bitsOf : List Bool → Nat
  | [] => 0
  | flag :: rest => flag.toNat + 2 * bitsOf rest

end PathFilter.Text
