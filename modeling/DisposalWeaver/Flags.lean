/-
Attribute words of types, methods, fields and generic parameters.

Each word keeps only the bits that have a meaning (`ofBits`), so two words are equal exactly when they say the same.
Accessibility is an enumeration in the low three bits of a method's or a field's word, not a set of flags:
`MethodFlags.assembly` contains `MethodFlags.private_` as bits, but its visibility is `Visibility.assembly`.
-/
namespace DisposalWeaver

/-- member accessibility -/
inductive Visibility where
  | compilerControlled
  | private_
  | familyAndAssembly
  | assembly
  | family
  | familyOrAssembly
  | public_
  deriving DecidableEq, Repr

/-- accessibility encoded in the low three bits of a word -/
def Visibility.ofBits (bits : UInt16) : Visibility :=
  match (bits &&& 0x0007).toNat with
  | 1 => .private_
  | 2 => .familyAndAssembly
  | 3 => .assembly
  | 4 => .family
  | 5 => .familyOrAssembly
  | 6 => .public_
  | _ => .compilerControlled

/-! ## Types -/

/-- attributes of a type; enumerations and value types are no flags, their base type tells -/
structure TypeFlags where
  bits : UInt32
  deriving DecidableEq, Repr, Inhabited

namespace TypeFlags

/-- every bit with a meaning -/
def mask : UInt32 := 0x001005A3

/-- the meaningful part of a word -/
def ofBits (bits : UInt32) : TypeFlags := ⟨bits &&& mask⟩

instance : OrOp TypeFlags := ⟨fun a b => ⟨a.bits ||| b.bits⟩⟩

/-- are all bits of `part` set? -/
def contains (flags part : TypeFlags) : Bool :=
  flags.bits &&& part.bits == part.bits

def public_ : TypeFlags := ⟨0x00000001⟩
def interface : TypeFlags := ⟨0x00000020⟩
def abstract_ : TypeFlags := ⟨0x00000080⟩
def sealed : TypeFlags := ⟨0x00000100⟩
def beforeFieldInit : TypeFlags := ⟨0x00100000⟩

end TypeFlags

/-! ## Methods -/

/-- attributes of a method -/
structure MethodFlags where
  bits : UInt16
  deriving DecidableEq, Repr, Inhabited

namespace MethodFlags

/-- every bit with a meaning -/
def mask : UInt16 := 0x1DF7

/-- the meaningful part of a word -/
def ofBits (bits : UInt16) : MethodFlags := ⟨bits &&& mask⟩

instance : OrOp MethodFlags := ⟨fun a b => ⟨a.bits ||| b.bits⟩⟩

/-- are all bits of `part` set? -/
def contains (flags part : MethodFlags) : Bool :=
  flags.bits &&& part.bits == part.bits

def private_ : MethodFlags := ⟨0x0001⟩
def assembly : MethodFlags := ⟨0x0003⟩
def family : MethodFlags := ⟨0x0004⟩
def public_ : MethodFlags := ⟨0x0006⟩
def static : MethodFlags := ⟨0x0010⟩
def final : MethodFlags := ⟨0x0020⟩
def virtual : MethodFlags := ⟨0x0040⟩
def hideBySignature : MethodFlags := ⟨0x0080⟩
def newSlot : MethodFlags := ⟨0x0100⟩
def abstract_ : MethodFlags := ⟨0x0400⟩
def specialName : MethodFlags := ⟨0x0800⟩
def runtimeSpecialName : MethodFlags := ⟨0x1000⟩

def visibility (flags : MethodFlags) : Visibility := Visibility.ofBits flags.bits
def isStatic (flags : MethodFlags) : Bool := flags.contains static
def isVirtual (flags : MethodFlags) : Bool := flags.contains virtual

end MethodFlags

/-! ## Fields -/

/-- attributes of a field -/
structure FieldFlags where
  bits : UInt16
  deriving DecidableEq, Repr, Inhabited

namespace FieldFlags

/-- every bit with a meaning -/
def mask : UInt16 := 0x0077

/-- the meaningful part of a word -/
def ofBits (bits : UInt16) : FieldFlags := ⟨bits &&& mask⟩

instance : OrOp FieldFlags := ⟨fun a b => ⟨a.bits ||| b.bits⟩⟩

/-- are all bits of `part` set? -/
def contains (flags part : FieldFlags) : Bool :=
  flags.bits &&& part.bits == part.bits

def private_ : FieldFlags := ⟨0x0001⟩
def static : FieldFlags := ⟨0x0010⟩
def initOnly : FieldFlags := ⟨0x0020⟩

def visibility (flags : FieldFlags) : Visibility := Visibility.ofBits flags.bits
def isStatic (flags : FieldFlags) : Bool := flags.contains static
def isInitOnly (flags : FieldFlags) : Bool := flags.contains initOnly

end FieldFlags

/-! ## Generic parameters -/

/-- special constraints on a generic parameter -/
structure GenericFlags where
  bits : UInt16
  deriving DecidableEq, Repr, Inhabited

namespace GenericFlags

/-- every bit with a meaning -/
def mask : UInt16 := 0x001C

/-- the meaningful part of a word -/
def ofBits (bits : UInt16) : GenericFlags := ⟨bits &&& mask⟩

/-- are all bits of `part` set? -/
def contains (flags part : GenericFlags) : Bool :=
  flags.bits &&& part.bits == part.bits

def none : GenericFlags := ⟨0⟩
def referenceType : GenericFlags := ⟨0x0004⟩
def valueType : GenericFlags := ⟨0x0008⟩

end GenericFlags

end DisposalWeaver
