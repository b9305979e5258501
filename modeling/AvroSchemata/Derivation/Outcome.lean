set_option autoImplicit false

namespace AvroSchemata

inductive Collective where
  | sequence
  | map
  deriving DecidableEq, Repr

def Collective.word : Collective → String
  | .sequence => "sequence"
  | .map => "map"

/-- A reason for which there is no schema. Types are given by their full names. -/
inductive Failure where
  | unsupported (type : String)
  | unimplemented (what : Collective) (type : String)
  | tooDeep (limit : Nat) (type : String)
  | unknown (name : String)
  deriving DecidableEq, Repr

def Failure.message : Failure → String
  | .unsupported type => "Not supported: " ++ type
  | .unimplemented what type => "Not implemented: " ++ what.word ++ " type " ++ type
  | .tooDeep limit type =>
    "Maximum derivation depth " ++ toString limit ++ " exceeded at " ++ type
  | .unknown name => "Unknown type: " ++ name

structure Visited (τ : Type) where
  items : List τ
  nodup : items.Nodup
  deriving Repr

namespace Visited

variable {τ : Type}

instance : Membership τ (Visited τ) := ⟨fun seen t => t ∈ seen.items⟩

instance [DecidableEq τ] (seen : Visited τ) (t : τ) : Decidable (t ∈ seen) :=
  inferInstanceAs (Decidable (t ∈ seen.items))

def empty : Visited τ := ⟨[], List.nodup_nil⟩

def size (seen : Visited τ) : Nat := seen.items.length

def insert [DecidableEq τ] (seen : Visited τ) (t : τ) : Visited τ :=
  if h : t ∈ seen then seen else ⟨t :: seen.items, List.nodup_cons.2 ⟨h, seen.nodup⟩⟩

def ofList [DecidableEq τ] (ts : List τ) : Visited τ := ts.foldl insert empty

@[simp] theorem not_mem_empty (t : τ) : t ∉ (empty : Visited τ) := List.not_mem_nil

@[simp] theorem mem_insert [DecidableEq τ] {seen : Visited τ} {t u : τ} :
    u ∈ seen.insert t ↔ u = t ∨ u ∈ seen := by
  unfold insert
  split
  · next h => exact ⟨Or.inr, fun hu => hu.elim (fun e => e ▸ h) id⟩
  · exact List.mem_cons

theorem mem_insert_self [DecidableEq τ] (seen : Visited τ) (t : τ) : t ∈ seen.insert t :=
  mem_insert.2 (.inl rfl)

theorem mem_insert_of_mem [DecidableEq τ] {seen : Visited τ} {t u : τ} (h : u ∈ seen) :
    u ∈ seen.insert t := mem_insert.2 (.inr h)

end Visited

structure Outcome (τ α : Type) where
  result : Except Failure α
  seen : Visited τ

namespace Outcome

variable {τ α β : Type}

def map (f : α → β) (o : Outcome τ α) : Outcome τ β :=
  ⟨o.result.map f, o.seen⟩

def andThen (o : Outcome τ α) (next : α → Visited τ → Outcome τ β) : Outcome τ β :=
  match o.result with
  | .ok a => next a o.seen
  | .error e => ⟨.error e, o.seen⟩

@[simp] theorem map_ok (f : α → β) (a : α) (seen : Visited τ) :
    (Outcome.mk (.ok a) seen).map f = ⟨.ok (f a), seen⟩ := rfl

@[simp] theorem map_error (f : α → β) (e : Failure) (seen : Visited τ) :
    (Outcome.mk (.error e) seen).map f = ⟨.error e, seen⟩ := rfl

@[simp] theorem seen_map (f : α → β) (o : Outcome τ α) : (o.map f).seen = o.seen := rfl

@[simp] theorem andThen_ok (a : α) (seen : Visited τ) (next : α → Visited τ → Outcome τ β) :
    (Outcome.mk (.ok a) seen).andThen next = next a seen := rfl

end Outcome

end AvroSchemata
