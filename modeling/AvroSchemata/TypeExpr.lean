import AvroSchemata.Shape
set_option autoImplicit false

namespace AvroSchemata

inductive BaseType where
  | text | textSlice | character
  | int64 | word32 | int32 | int16 | int8 | word16
  | float32 | float64
  | byte | byteSlice
  | boolean | unit
  | instant | span | guid
  | utcDateTime | offsetDateTime | localDateTime | timeDelta
  deriving DecidableEq, Repr

inductive Pointer where
  | unique | shared | atomic
  deriving DecidableEq, Repr

inductive Collection where
  | growable
  | fixed (length : Nat)
  | deque | linked | sortedSet | hashSet
  deriving DecidableEq, Repr

inductive Mapping where
  | hashed | sorted
  deriving DecidableEq, Repr

inductive TypeExpr (n : Nat) where
  | base (b : BaseType)
  | declared (i : Fin n)
  | pointer (p : Pointer) (target : TypeExpr n)
  | optional (item : TypeExpr n)
  | collection (c : Collection) (item : TypeExpr n)
  | map (m : Mapping) (key value : TypeExpr n)
  deriving DecidableEq, Repr

variable {n : Nat}

namespace TypeExpr

def isPointer : TypeExpr n → Bool
  | .pointer _ _ => true
  | .base _ | .declared _ | .optional _ | .collection _ _ | .map _ _ _ => false

def bare : TypeExpr n → TypeExpr n
  | .pointer _ target => target.bare
  | .base b => .base b
  | .declared i => .declared i
  | .optional item => .optional item
  | .collection c item => .collection c item
  | .map m key value => .map m key value

@[simp] theorem isPointer_bare (t : TypeExpr n) : t.bare.isPointer = false := by
  induction t with
  | pointer _ _ ih => exact ih
  | _ => rfl

theorem bare_eq_self {t : TypeExpr n} (h : t.isPointer = false) : t.bare = t := by
  cases t with
  | pointer => simp [isPointer] at h
  | _ => rfl

@[simp] theorem bare_bare (t : TypeExpr n) : t.bare.bare = t.bare :=
  bare_eq_self t.isPointer_bare

end TypeExpr

/-- What tells a type apart from others: an expression that is no pointer. A pointer and what it
points to are one type. -/
structure Descriptor (n : Nat) where
  expr : TypeExpr n
  not_pointer : expr.isPointer = false
  deriving DecidableEq, Repr

def TypeExpr.descriptor (t : TypeExpr n) : Descriptor n := ⟨t.bare, t.isPointer_bare⟩

@[simp] theorem Descriptor.descriptor_expr (d : Descriptor n) : d.expr.descriptor = d := by
  obtain ⟨t, h⟩ := d
  simp [TypeExpr.descriptor, TypeExpr.bare_eq_self h]

variable {τ σ : Type}

def BaseType.shape : BaseType → Shape τ
  | .text | .textSlice | .character => .primitive .string
  | .int64 | .word32 => .primitive .long
  | .int32 | .int16 | .int8 | .word16 => .primitive .int
  | .float32 => .primitive .float
  | .float64 => .primitive .double
  | .byte | .byteSlice => .primitive .bytes
  | .boolean => .primitive .boolean
  | .unit => .primitive .null
  | .instant => .logical .timestamp ⟨"std.time", "SystemTime"⟩
  | .span => .logical .duration ⟨"core.time", "Duration"⟩
  | .guid => .logical .guid ⟨"uuid", "Uuid"⟩
  | .utcDateTime | .offsetDateTime => .logical .timestamp ⟨"chrono", "DateTime"⟩
  | .localDateTime => .logical .timestamp ⟨"chrono", "NaiveDateTime"⟩
  | .timeDelta => .logical .duration ⟨"chrono", "TimeDelta"⟩

@[simp] theorem BaseType.mapTypes_shape (f : τ → σ) (b : BaseType) :
    (b.shape : Shape τ).mapTypes f = b.shape := by cases b <;> rfl

def Collection.declared : Collection → FullName
  | .growable => ⟨"alloc.vec", "Vec"⟩
  | .fixed _ => ⟨"core", "Array"⟩
  | .deque => ⟨"alloc.collections", "VecDeque"⟩
  | .linked => ⟨"alloc.collections", "LinkedList"⟩
  | .sortedSet => ⟨"alloc.collections", "BTreeSet"⟩
  | .hashSet => ⟨"std.collections", "HashSet"⟩

def Collection.isContiguous : Collection → Bool
  | .growable | .fixed _ => true
  | .deque | .linked | .sortedSet | .hashSet => false

def Mapping.declared : Mapping → FullName
  | .hashed => ⟨"std.collections", "HashMap"⟩
  | .sorted => ⟨"alloc.collections", "BTreeMap"⟩

/-- The declared types, as they are written: their parts may be pointers. -/
abbrev Declarations (n : Nat) := Fin n → Shape (TypeExpr n)

/-- The shape of a type. A pointer has the shape of what it points to, and bytes that lie side by
side are a primitive: the bytes themselves, and not pointers to them. -/
def TypeExpr.shape (declarations : Declarations n) : TypeExpr n → Shape (Descriptor n)
  | .base b => b.shape
  | .declared i => (declarations i).mapTypes descriptor
  | .pointer _ target => target.shape declarations
  | .optional item => .optional item.descriptor
  | .collection c item =>
    if c.isContiguous ∧ item = .base .byte then .primitive .bytes
    else .sequence c.declared item.descriptor
  | .map m key value => .map m.declared key.descriptor value.descriptor

@[simp] theorem TypeExpr.shape_bare (declarations : Declarations n) (t : TypeExpr n) :
    t.bare.shape declarations = t.shape declarations := by
  induction t with
  | pointer _ _ ih => exact ih
  | _ => rfl

def Descriptor.shape (declarations : Declarations n) (d : Descriptor n) : Shape (Descriptor n) :=
  d.expr.shape declarations

@[simp] theorem Descriptor.shape_descriptor (declarations : Declarations n) (t : TypeExpr n) :
    t.descriptor.shape declarations = t.shape declarations := t.shape_bare declarations

end AvroSchemata
