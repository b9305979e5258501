import Std.Data.TreeMap
import AvroSchemata.Derivation.Basic
import AvroSchemata.TypeExpr
set_option autoImplicit false

namespace AvroSchemata

structure Catalogue (τ : Type) where
  types : Std.TreeMap String τ := ∅
  settings : Settings := {}

namespace Catalogue

variable {τ : Type}

def empty : Catalogue τ := {}

def insert (c : Catalogue τ) (name : String) (t : τ) : Catalogue τ :=
  { c with types := c.types.insert name t }

def register (c : Catalogue τ) (shapes : τ → Shape τ) (t : τ) : Catalogue τ :=
  c.insert (shapes t).fullName t

def withSettings (c : Catalogue τ) (settings : Settings) : Catalogue τ :=
  { c with settings }

def get? (c : Catalogue τ) (name : String) : Option τ := c.types[name]?

def names (c : Catalogue τ) : List String := c.types.keys

def size (c : Catalogue τ) : Nat := c.types.size

@[simp] theorem get?_empty (name : String) : (empty : Catalogue τ).get? name = none :=
  Std.TreeMap.getElem?_emptyc

theorem get?_insert (c : Catalogue τ) (a b : String) (t : τ) :
    (c.insert a t).get? b = if a = b then some t else c.get? b := by
  simp [get?, insert, Std.TreeMap.getElem?_insert]

theorem mem_names_iff {c : Catalogue τ} {name : String} : name ∈ c.names ↔ (c.get? name).isSome := by
  rw [names, Std.TreeMap.mem_keys, get?, Std.TreeMap.isSome_getElem?_iff_mem]

variable [DecidableEq τ]

def schema (c : Catalogue τ) (shapes : τ → Shape τ) (name : String) : Except Failure String :=
  match c.get? name with
  | some t => c.settings.text shapes t
  | none => .error (.unknown name)

def textsFrom (settings : Settings) (shapes : τ → Shape τ) :
    List (String × τ) → Visited τ → Outcome τ (List (String × String))
  | [], seen => ⟨.ok [], seen⟩
  | (name, t) :: rest, seen =>
    (settings.textIn shapes t seen).andThen fun text seen =>
      (textsFrom settings shapes rest seen).map ((name, text) :: ·)

/-- The texts of the schemas of all names, in order. A type that an earlier text defines is only
referred to in later ones. -/
def schemas (c : Catalogue τ) (shapes : τ → Shape τ) : Except Failure (List (String × String)) :=
  (textsFrom c.settings shapes c.types.toList .empty).result

end Catalogue

def BaseType.builtin : List BaseType :=
  [.text, .int64, .int32, .float32, .float64, .byteSlice, .boolean, .unit, .instant, .span, .guid]

def Catalogue.builtin {n : Nat} (declarations : Declarations n) : Catalogue (Descriptor n) :=
  BaseType.builtin.foldl
    (fun c b => c.register (Descriptor.shape declarations) (TypeExpr.base b).descriptor) empty

namespace Catalogue

variable {τ : Type}

inductive Request (τ : Type) where
  | insert (name : String) (type : τ)
  | register (type : τ)
  | configure (settings : Settings)
  | type (name : String)
  | names
  | size
  | schema (name : String)
  | schemas
  deriving DecidableEq, Repr

inductive Reply (τ : Type) where
  | done
  | type (found? : Option τ)
  | names (names : List String)
  | size (count : Nat)
  | text (result : Except Failure String)
  | texts (result : Except Failure (List (String × String)))

def Request.binding? (shapes : τ → Shape τ) : Request τ → Option (String × τ)
  | .insert name t => some (name, t)
  | .register t => some ((shapes t).fullName, t)
  | .configure _ | .type _ | .names | .size | .schema _ | .schemas => none

def lastBound (shapes : τ → Shape τ) (requests : List (Request τ)) (name : String) : Option τ :=
  (requests.filterMap (Request.binding? shapes)).reverse.lookup name

theorem lastBound_append_singleton (shapes : τ → Shape τ) (requests : List (Request τ))
    (r : Request τ) (name : String) :
    lastBound shapes (requests ++ [r]) name =
      ((r.binding? shapes).toList.lookup name).or (lastBound shapes requests name) := by
  rw [lastBound, List.filterMap_append, List.reverse_append, List.lookup_append]
  cases h : r.binding? shapes <;> simp [h, lastBound]

variable [DecidableEq τ]

def serve (c : Catalogue τ) (shapes : τ → Shape τ) : Request τ → Reply τ × Catalogue τ
  | .insert name t => (.done, c.insert name t)
  | .register t => (.done, c.register shapes t)
  | .configure settings => (.done, c.withSettings settings)
  | .type name => (.type (c.get? name), c)
  | .names => (.names c.names, c)
  | .size => (.size c.size, c)
  | .schema name => (.text (c.schema shapes name), c)
  | .schemas => (.texts (c.schemas shapes), c)

/-- The catalogue after these requests, if it is empty before them. -/
def after (shapes : τ → Shape τ) (requests : List (Request τ)) : Catalogue τ :=
  requests.foldl (fun c r => (c.serve shapes r).2) empty

theorem after_append_singleton (shapes : τ → Shape τ) (requests : List (Request τ))
    (r : Request τ) :
    after shapes (requests ++ [r]) = ((after shapes requests).serve shapes r).2 := by
  rw [after, List.foldl_append]
  rfl

theorem get?_serve (c : Catalogue τ) (shapes : τ → Shape τ) (r : Request τ) (name : String) :
    (c.serve shapes r).2.get? name =
      ((r.binding? shapes).toList.lookup name).or (c.get? name) := by
  have bound (a : String) (t : τ) :
      (c.insert a t).get? name = (([(a, t)] : List (String × τ)).lookup name).or (c.get? name) := by
    rw [get?_insert, List.lookup_cons]
    by_cases same : a = name
    · simp [same]
    · have other : (name == a) = false := beq_false_of_ne (Ne.symm same)
      simp [same, other]
  cases r with
  | insert a t => exact bound a t
  | register t => exact bound (shapes t).fullName t
  | _ => rfl

end Catalogue

end AvroSchemata
