import PathFilter.Text.FlagList

set_option autoImplicit false
set_option relaxedAutoImplicit false

namespace PathFilter

/-- What a matching rule does with a path. -/
inductive Role
  | includes
  | excludes
  | ignores
  /-- Kept with the other rules and never consulted. -/
  | reserved
  deriving DecidableEq, Repr

namespace Role

/-- The roles by ascending code. -/
def all : List Role := [.includes, .excludes, .ignores, .reserved]

def code : Role → Nat
  | .includes => 0
  | .excludes => 1
  | .ignores => 2
  | .reserved => 3

def ofCode? (code : Nat) : Option Role := all.find? fun role => role.code = code

def name : Role → Text
  | .includes => "include".toList
  | .excludes => "exclude".toList
  | .ignores => "ignore".toList
  | .reserved => "reserved".toList

def ofName? (name : Text) : Option Role := all.find? fun role => role.name = name

end Role

structure RoleSet where
  includes : Bool := false
  excludes : Bool := false
  ignores : Bool := false
  reserved : Bool := false
  deriving DecidableEq, Repr

namespace RoleSet

def empty : RoleSet := {}

def full : RoleSet := ⟨true, true, true, true⟩

def contains (set : RoleSet) : Role → Bool
  | .includes => set.includes
  | .excludes => set.excludes
  | .ignores => set.ignores
  | .reserved => set.reserved

def single (role : Role) : RoleSet where
  includes := role = .includes
  excludes := role = .excludes
  ignores := role = .ignores
  reserved := role = .reserved

def union (a b : RoleSet) : RoleSet where
  includes := a.includes || b.includes
  excludes := a.excludes || b.excludes
  ignores := a.ignores || b.ignores
  reserved := a.reserved || b.reserved

/-- The members by ascending code. -/
def roles (set : RoleSet) : List Role := Role.all.filter set.contains

@[simp] theorem contains_union (a b : RoleSet) (role : Role) :
    (a.union b).contains role = (a.contains role || b.contains role) := by
  cases role <;> rfl

@[simp] theorem contains_full (role : Role) : full.contains role = true := by
  cases role <;> rfl

@[simp] theorem mem_roles (set : RoleSet) (role : Role) :
    role ∈ set.roles ↔ set.contains role = true := by
  cases role <;> simp [roles, Role.all]

end RoleSet

/-- The roles whose rules are switched off. -/
structure DisabledRoles where
  includes : Bool := false
  excludes : Bool := false
  ignores : Bool := false
  deriving DecidableEq, Repr

namespace DisabledRoles

def none : DisabledRoles := {}

/-- The switch of a role; reserved rules have none. -/
def isSet (disabled : DisabledRoles) : Role → Bool
  | .includes => disabled.includes
  | .excludes => disabled.excludes
  | .ignores => disabled.ignores
  | .reserved => false

def flags (disabled : DisabledRoles) : List Bool :=
  [disabled.includes, disabled.excludes, disabled.ignores]

/-- The switches as a number, one bit each. -/
def bits (disabled : DisabledRoles) : Nat := Text.bitsOf disabled.flags

/-- The switches that a number has bits for; other bits are dropped. -/
def ofBits (bits : Nat) : DisabledRoles where
  includes := bits.testBit 0
  excludes := bits.testBit 1
  ignores := bits.testBit 2

def zip (f : Bool → Bool → Bool) (a b : DisabledRoles) : DisabledRoles where
  includes := f a.includes b.includes
  excludes := f a.excludes b.excludes
  ignores := f a.ignores b.ignores

def union (a b : DisabledRoles) : DisabledRoles := zip or a b

def inter (a b : DisabledRoles) : DisabledRoles := zip and a b

def diff (a b : DisabledRoles) : DisabledRoles := zip (fun x y => x && !y) a b

def complement (a : DisabledRoles) : DisabledRoles := diff ⟨true, true, true⟩ a

def contains (a b : DisabledRoles) : Bool := inter a b = b

def isEmpty (a : DisabledRoles) : Bool := a = none

/-- The rules of a role take no part in a decision; reserved rules never do. -/
def disables (disabled : DisabledRoles) : Role → Bool
  | .includes => disabled.includes
  | .excludes => disabled.excludes
  | .ignores => disabled.ignores
  | .reserved => true

def describe (disabled : DisabledRoles) : Text :=
  Text.flagList "SpecFlags" <| disabled.flags.zip ["NO_INCLUDES", "NO_EXCLUDES", "NO_IGNORES"]

@[simp] theorem union_none (a : DisabledRoles) : a.union none = a := by
  simp [union, zip, none]

theorem disables_eq_isSet (disabled : DisabledRoles) {role : Role} (consulted : role ≠ .reserved) :
    disabled.disables role = disabled.isSet role := by
  cases role with
  | reserved => exact absurd rfl consulted
  | includes | excludes | ignores => rfl

section Switches

variable (a b : DisabledRoles) (role : Role)

@[simp] theorem isSet_none : none.isSet role = false := by
  cases role <;> rfl

@[simp] theorem isSet_union : (a.union b).isSet role = (a.isSet role || b.isSet role) := by
  cases role <;> rfl

@[simp] theorem isSet_diff : (a.diff b).isSet role = (a.isSet role && !b.isSet role) := by
  cases role <;> rfl

end Switches

theorem ofBits_bits (disabled : DisabledRoles) : ofBits disabled.bits = disabled := by
  rcases disabled with ⟨a, b, c⟩
  cases a <;> cases b <;> cases c <;> rfl

end DisabledRoles

end PathFilter
