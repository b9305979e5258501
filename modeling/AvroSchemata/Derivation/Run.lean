import AvroSchemata.Derivation.Basic
import AvroSchemata.Schema.Outline
set_option autoImplicit false

/-!
Schemas together with the types that they are for, so that each place in a schema has a type; and
runs, which are derivations one after the other in one set of visited types. A failure ends one of
them and not the run, and what it has met stays.
-/

namespace AvroSchemata

variable {τ : Type}

inductive Written where
  | name (fullName : String)
  | schema (s : Schema)
  deriving DecidableEq, Repr

structure Placement (τ : Type) where
  type : τ
  written : Written

mutual

/-- The places of a schema, from the top down, where it is the schema of this type. -/
def Schema.placements (shapes : τ → Shape τ) : Schema → τ → List (Placement τ)
  | .record name space? fields, t =>
    ⟨t, .schema (.record name space? fields)⟩ :: fields.placements shapes (shapes t).members
  | .primitive p, t => [⟨t, .schema (.primitive p)⟩]
  | .reference name space?, t => [⟨t, .schema (.reference name space?)⟩]
  | .fixed name size, t => [⟨t, .schema (.fixed name size)⟩]
  | .enumeration name space symbols, t => [⟨t, .schema (.enumeration name space symbols)⟩]
  | .union branches, t => [⟨t, .schema (.union branches)⟩]

def Fields.placements (shapes : τ → Shape τ) : Fields → List (Member τ) → List (Placement τ)
  | .named _ type rest, m :: ms => ⟨m.type, .name type⟩ :: rest.placements shapes ms
  | .inline _ schema rest, m :: ms =>
    schema.placements shapes m.type ++ rest.placements shapes ms
  | .nil, _ | .named _ _ _, [] | .inline _ _ _, [] => []

end

def Placement.isDefinition (p : Placement τ) : Bool :=
  match p.written with
  | .schema s => s.definedName?.isSome
  | .name _ => false

def Placement.isReference (p : Placement τ) : Bool :=
  match p.written with
  | .name _ | .schema (.reference _ _) => true
  | .schema _ => false

def definedIn (ps : List (Placement τ)) : List τ :=
  (ps.filter Placement.isDefinition).map Placement.type

@[simp] theorem definedIn_nil : definedIn ([] : List (Placement τ)) = [] := rfl

theorem definedIn_cons (p : Placement τ) (ps : List (Placement τ)) :
    definedIn (p :: ps) = if p.isDefinition then p.type :: definedIn ps else definedIn ps := by
  cases h : p.isDefinition <;> simp [definedIn, h]

@[simp] theorem definedIn_append (ps qs : List (Placement τ)) :
    definedIn (ps ++ qs) = definedIn ps ++ definedIn qs := by
  simp [definedIn]

structure Call (τ : Type) where
  type : τ
  limit : Nat
  deriving DecidableEq, Repr

def Fine (results : List (Except Failure Schema)) : Prop := ∀ r ∈ results, ∃ s, r = .ok s

theorem all_isOk_iff_fine {results : List (Except Failure Schema)} :
    results.all Except.isOk = true ↔ Fine results := by
  rw [List.all_eq_true]
  refine forall_congr' fun r => imp_congr_right fun _ => ?_
  cases r <;> simp [Except.isOk, Except.toBool]

instance (results : List (Except Failure Schema)) : Decidable (Fine results) :=
  decidable_of_iff _ all_isOk_iff_fine

section Fine

variable {results : List (Except Failure Schema)}

theorem Fine.nil : Fine [] := fun _ hr => (List.not_mem_nil hr).elim

theorem Fine.cons (fine : Fine results) (s : Schema) : Fine (.ok s :: results) := by
  intro r hr
  obtain rfl | hr := List.mem_cons.1 hr
  · exact ⟨s, rfl⟩
  · exact fine r hr

theorem Fine.tail {r : Except Failure Schema} (fine : Fine (r :: results)) : Fine results :=
  fun r' hr => fine r' (List.mem_cons_of_mem r hr)

theorem Fine.error_not_mem (fine : Fine results) (e : Failure) : .error e ∉ results := by
  intro he
  obtain ⟨s, hs⟩ := fine _ he
  cases hs

end Fine

/-- The types that the schemas for these calls define, in order. A failure defines none. -/
def definedBy (shapes : τ → Shape τ) : List (Call τ) → List (Except Failure Schema) → List τ
  | call :: calls, .ok s :: results =>
    definedIn (s.placements shapes call.type) ++ definedBy shapes calls results
  | _ :: calls, .error _ :: results => definedBy shapes calls results
  | [], _ | _ :: _, [] => []

variable [DecidableEq τ]

mutual

/-- The schema of a type with names in the place of all parts for known types. -/
def Schema.prune (shapes : τ → Shape τ) (seen : Visited τ) : Schema → τ → Schema
  | .record name space? fields, t =>
    .record name space? (fields.prune shapes seen (shapes t).members)
  | .primitive p, _ => .primitive p
  | .reference name space?, _ => .reference name space?
  | .fixed name size, _ => .fixed name size
  | .enumeration name space symbols, _ => .enumeration name space symbols
  | .union branches, _ => .union branches

def Fields.prune (shapes : τ → Shape τ) (seen : Visited τ) : Fields → List (Member τ) → Fields
  | .nil, _ => .nil
  | .named name type rest, ms => .named name type (rest.prune shapes seen ms.tail)
  | .inline name schema rest, [] => .inline name schema rest
  | .inline name schema rest, m :: ms =>
    if Known shapes seen m.type then
      .named name (shapes m.type).fullName (rest.prune shapes seen ms)
    else .inline name (schema.prune shapes seen m.type) (rest.prune shapes seen ms)

end

def run (shapes : τ → Shape τ) :
    List (Call τ) → Visited τ → List (Except Failure Schema) × Visited τ
  | [], seen => ([], seen)
  | r :: rs, seen =>
    let o := derive shapes r.limit r.limit r.type seen
    let (results, seen) := run shapes rs o.seen
    (o.result :: results, seen)

/-- A type that a run has met for the first time in a call that failed. -/
inductive Abandoned (shapes : τ → Shape τ) (t : τ) :
    List (Call τ) → Visited τ → Prop where
  | here {call : Call τ} {calls : List (Call τ)} {seen : Visited τ} {e : Failure}
      (fails : (derive shapes call.limit call.limit call.type seen).result = .error e)
      (met : t ∈ (derive shapes call.limit call.limit call.type seen).seen) (new : t ∉ seen) :
      Abandoned shapes t (call :: calls) seen
  | later {call : Call τ} {calls : List (Call τ)} {seen : Visited τ}
      (after : Abandoned shapes t calls
        (derive shapes call.limit call.limit call.type seen).seen) :
      Abandoned shapes t (call :: calls) seen

end AvroSchemata
