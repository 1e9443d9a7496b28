import PathFilter.Proofs.Filter.Loads

set_option autoImplicit false
set_option relaxedAutoImplicit false

namespace PathFilter.Filter

section AddCut

variable {text : Text} {length : Nat} (filter : Filter) (role : Role) (options : MatchOptions)

end AddCut

end PathFilter.Filter
