import Mathlib.Logic.Function.Basic
import AvroSchemata.Catalogue
import AvroSchemata.Proofs.Erasure
import AvroSchemata.TypeExpr
set_option autoImplicit false

namespace AvroSchemata

variable {ι : Type} {n : Nat}

structure Handle (ι : Type) (n : Nat) where
  identity : ι
  source : TypeExpr n
  deriving DecidableEq, Repr

def Handle.Same (h k : Handle ι n) : Prop := h.identity = k.identity

namespace TypeExpr

/-- The handle of a type. A pointer hands out that of its target. -/
def handle (identify : TypeExpr n → ι) : TypeExpr n → Handle ι n
  | .pointer _ target => target.handle identify
  | .base b => ⟨identify (.base b), .base b⟩
  | .declared i => ⟨identify (.declared i), .declared i⟩
  | .optional item => ⟨identify (.optional item), .optional item⟩
  | .collection c item => ⟨identify (.collection c item), .collection c item⟩
  | .map m key value => ⟨identify (.map m key value), .map m key value⟩

def info [DecidableEq ι] (identify : TypeExpr n → ι) (declarations : Declarations n) :
    TypeExpr n → Shape (Handle ι n)
  | .base b => b.shape
  | .declared i => (declarations i).mapTypes (handle identify)
  | .pointer _ target => target.info identify declarations
  | .optional item => .optional (item.handle identify)
  | .collection c item =>
    if c.isContiguous ∧ identify item = identify (.base .byte) then .primitive .bytes
    else .sequence c.declared (item.handle identify)
  | .map m key value => .map m.declared (key.handle identify) (value.handle identify)

def behind (pointers : List Pointer) (t : TypeExpr n) : TypeExpr n := pointers.foldr .pointer t

def SameTarget (a b : TypeExpr n) : Prop :=
  ∃ (t : TypeExpr n) (ps qs : List Pointer),
    t.isPointer = false ∧ a = t.behind ps ∧ b = t.behind qs

theorem handle_eq (identify : TypeExpr n → ι) (t : TypeExpr n) :
    t.handle identify = ⟨identify t.bare, t.bare⟩ := by
  induction t with
  | pointer _ _ ih => exact ih
  | _ => rfl

theorem bare_behind (pointers : List Pointer) (t : TypeExpr n) :
    (t.behind pointers).bare = t.bare := by
  induction pointers with
  | nil => rfl
  | cons p pointers ih => exact ih

theorem exists_behind (t : TypeExpr n) : ∃ pointers, t = t.bare.behind pointers := by
  induction t with
  | pointer p target ih =>
    obtain ⟨pointers, h⟩ := ih
    exact ⟨p :: pointers, congrArg (TypeExpr.pointer p) h⟩
  | _ => exact ⟨[], rfl⟩

theorem sameTarget_iff {a b : TypeExpr n} : a.SameTarget b ↔ a.bare = b.bare := by
  constructor
  · rintro ⟨t, ps, qs, -, rfl, rfl⟩
    rw [bare_behind, bare_behind]
  · intro h
    obtain ⟨ps, ha⟩ := a.exists_behind
    obtain ⟨qs, hb⟩ := b.exists_behind
    exact ⟨a.bare, ps, qs, a.isPointer_bare, ha, h ▸ hb⟩

end TypeExpr

def Descriptor.handle (identify : TypeExpr n → ι) (d : Descriptor n) : Handle ι n :=
  d.expr.handle identify

@[simp] theorem TypeExpr.handle_descriptor (identify : TypeExpr n → ι) (t : TypeExpr n) :
    t.descriptor.handle identify = t.handle identify := by
  rw [Descriptor.handle, handle_eq, handle_eq identify t, descriptor, bare_bare]

def Handle.shape [DecidableEq ι] (identify : TypeExpr n → ι) (declarations : Declarations n)
    (h : Handle ι n) : Shape (Handle ι n) := h.source.info identify declarations

@[simp] theorem Handle.shape_handle [DecidableEq ι] (identify : TypeExpr n → ι)
    (declarations : Declarations n) (t : TypeExpr n) :
    (t.handle identify).shape identify declarations = t.info identify declarations := by
  induction t with
  | pointer _ _ ih => exact ih
  | _ => rfl

section Injective

variable {τ σ : Type} {f : τ → σ}

theorem Kind.mapTypes_injective (hf : Function.Injective f) : Function.Injective (mapTypes f) := by
  intro k k' h
  cases k <;> cases k' <;> simp_all [mapTypes, hf.eq_iff]

theorem Shape.mapTypes_injective (hf : Function.Injective f) : Function.Injective (mapTypes f) := by
  have member : Function.Injective fun m : Member τ => (⟨m.name, f m.type⟩ : Member σ) := by
    rintro ⟨name, type⟩ ⟨name', type'⟩ h
    obtain ⟨names, types⟩ := (Member.mk.injEq ..).mp h
    exact (Member.mk.injEq ..).mpr ⟨names, hf types⟩
  rintro ⟨declared, kind, members⟩ ⟨declared', kind', members'⟩ h
  obtain ⟨names, kinds, parts⟩ := (Shape.mk.injEq ..).mp h
  exact (Shape.mk.injEq ..).mpr
    ⟨names, Kind.mapTypes_injective hf kinds, (List.map_inj_right member).1 parts⟩

end Injective

/-- Types that can stand for each other: they have one shape, and wherever one is derived, met or
bound to a name, the other may be. -/
structure Interchangeable {τ : Type} [DecidableEq τ] (shapes : τ → Shape τ) (t u : τ) : Prop where
  shape : shapes t = shapes u
  text : ∀ (settings : Settings) (seen : Visited τ),
    settings.textIn shapes t seen = settings.textIn shapes u seen
  mem_iff : ∀ seen : Visited τ, t ∈ seen ↔ u ∈ seen
  insert : ∀ seen : Visited τ, seen.insert t = seen.insert u
  bind : ∀ (c : Catalogue τ) (name : String), c.insert name t = c.insert name u
  register : ∀ c : Catalogue τ, c.register shapes t = c.register shapes u

theorem Interchangeable.refl {τ : Type} [DecidableEq τ] (shapes : τ → Shape τ) (t : τ) :
    Interchangeable shapes t t :=
  ⟨rfl, fun _ _ => rfl, fun _ => .rfl, fun _ => rfl, fun _ _ => rfl, fun _ => rfl⟩

variable {identify : TypeExpr n → ι}

/-- Handles that have been met, and descriptors that have: a handle counts as met when one with its
identity is. -/
structure SameMet (identify : TypeExpr n → ι) (seen : Visited (Descriptor n))
    (met : Visited (Handle ι n)) : Prop where
  given : ∀ h ∈ met, ∃ t : TypeExpr n, t.handle identify = h
  same_iff : ∀ t : TypeExpr n, (∃ h ∈ met, h.Same (t.handle identify)) ↔ t.descriptor ∈ seen

theorem TypeExpr.descriptor_eq_iff {a b : TypeExpr n} :
    a.descriptor = b.descriptor ↔ a.bare = b.bare := by simp [descriptor]

section Distinct

variable (distinct : Function.Injective identify)

include distinct

theorem TypeExpr.handle_same_iff {a b : TypeExpr n} :
    (a.handle identify).Same (b.handle identify) ↔ a.descriptor = b.descriptor := by
  rw [handle_eq, handle_eq identify b, Handle.Same, distinct.eq_iff, descriptor_eq_iff]

theorem TypeExpr.handle_eq_iff {a b : TypeExpr n} :
    a.handle identify = b.handle identify ↔ a.descriptor = b.descriptor := by
  refine ⟨fun h => (handle_same_iff distinct).1 (congrArg Handle.identity h), fun h => ?_⟩
  rw [← handle_descriptor, h, handle_descriptor]

theorem Descriptor.handle_injective : Function.Injective (Descriptor.handle (n := n) identify) :=
  fun d e h => by simpa using (TypeExpr.handle_eq_iff distinct).1 h

theorem Descriptor.shape_congr {declarations declarations' : Declarations n}
    (h : ∀ i, (declarations' i).mapTypes (TypeExpr.handle identify) =
      (declarations i).mapTypes (TypeExpr.handle identify)) :
    Descriptor.shape declarations' = Descriptor.shape declarations := by
  have declared : ∀ i, (declarations' i).mapTypes TypeExpr.descriptor =
      (declarations i).mapTypes TypeExpr.descriptor := fun i =>
    Shape.mapTypes_injective (Descriptor.handle_injective distinct) <| by
      simpa only [Shape.mapTypes_mapTypes, TypeExpr.handle_descriptor] using h i
  funext d
  obtain ⟨t, bare⟩ := d
  cases t with
  | declared i => exact declared i
  | pointer => simp [TypeExpr.isPointer] at bare
  | _ => rfl

variable [DecidableEq ι] (declarations : Declarations n)

theorem TypeExpr.info_eq_mapTypes (t : TypeExpr n) :
    t.info identify declarations = (t.shape declarations).mapTypes (Descriptor.handle identify) := by
  induction t with
  | base b => exact (b.mapTypes_shape _).symm
  | declared i => simp only [info, shape, Shape.mapTypes_mapTypes, handle_descriptor]
  | pointer _ _ ih => exact ih
  | optional item =>
    rw [info, ← handle_descriptor]
    rfl
  | collection c item =>
    simp only [info, shape, distinct.eq_iff, ← handle_descriptor identify item]
    split <;> rfl
  | map m key value =>
    rw [info, ← handle_descriptor, ← handle_descriptor identify value]
    rfl

theorem Descriptor.shape_handle (d : Descriptor n) :
    (d.handle identify).shape identify declarations =
      (d.shape declarations).mapTypes (Descriptor.handle identify) := by
  rw [Descriptor.handle, Handle.shape_handle, TypeExpr.info_eq_mapTypes distinct]
  rfl

end Distinct

namespace SameMet

variable {seen : Visited (Descriptor n)} {met : Visited (Handle ι n)}

theorem empty : SameMet identify .empty .empty :=
  ⟨fun h hh => absurd hh (Visited.not_mem_empty h), fun t => by simp⟩

variable (distinct : Function.Injective identify)

include distinct

theorem mem_iff (same : SameMet identify seen met) (d : Descriptor n) :
    d.handle identify ∈ met ↔ d ∈ seen := by
  have found : (∃ h ∈ met, h.Same (d.handle identify)) ↔ d ∈ seen := by
    simpa [Descriptor.handle] using same.same_iff d.expr
  rw [← found]
  constructor
  · exact fun hd => ⟨_, hd, rfl⟩
  · rintro ⟨h, hh, hd⟩
    obtain ⟨t, rfl⟩ := same.given h hh
    have eq : t.descriptor = d := by simpa using (TypeExpr.handle_same_iff distinct).1 hd
    rwa [← eq, TypeExpr.handle_descriptor]

theorem insert [DecidableEq ι] (same : SameMet identify seen met) (d : Descriptor n) :
    SameMet identify (seen.insert d) (met.insert (d.handle identify)) where
  given := fun h hh => by
    obtain rfl | hh := Visited.mem_insert.1 hh
    · exact ⟨d.expr, rfl⟩
    · exact same.given h hh
  same_iff := fun t => by
    have first : (d.handle identify).Same (t.handle identify) ↔ t.descriptor = d := by
      rw [Descriptor.handle, TypeExpr.handle_same_iff distinct, Descriptor.descriptor_expr, eq_comm]
    simp only [Visited.mem_insert, exists_eq_or_imp, first, same.same_iff]

end SameMet

theorem simulation_handle [DecidableEq ι] (distinct : Function.Injective identify)
    (declarations : Declarations n) :
    Simulation (Descriptor.shape declarations) (Handle.shape identify declarations)
      (Descriptor.handle identify) (fun _ => True) (SameMet identify) where
  alike := fun d _ => readsAlike_of_mapTypes (Descriptor.shape_handle distinct declarations d)
    fun e _ => Descriptor.shape_handle distinct declarations e
  closed := fun _ _ _ _ _ => trivial
  mem_iff := fun _ _ d same _ _ => same.mem_iff distinct d
  insert := fun _ _ d same _ => same.insert distinct d

/-- Identities and shapes fit together. Handles have one identity if and only if their types are one
type behind pointers, and then they can stand for each other, as can the descriptors. A handle gives
the shape of its type, which is the one over descriptors with handles in their place. Declared types
may have any parts with the same handles. Derivations over handles, where what has been met is told
by identity, end as those over descriptors do. -/
theorem TypeExpr.handle_coherent [DecidableEq ι] (distinct : Function.Injective identify)
    (declarations : Declarations n) (a b : TypeExpr n) :
    ((a.handle identify).Same (b.handle identify) ↔ a.SameTarget b) ∧
    ((a.handle identify).Same (b.handle identify) →
      Interchangeable (Handle.shape identify declarations) (a.handle identify)
        (b.handle identify) ∧
      Interchangeable (Descriptor.shape declarations) a.descriptor b.descriptor) ∧
    (a.handle identify).shape identify declarations = a.info identify declarations ∧
    a.info identify declarations = (a.shape declarations).mapTypes (Descriptor.handle identify) ∧
    (∀ declarations' : Declarations n,
      (∀ i, (declarations' i).mapTypes (handle identify) =
        (declarations i).mapTypes (handle identify)) →
      Descriptor.shape declarations' = Descriptor.shape declarations) ∧
    ∀ (seen : Visited (Descriptor n)) (met : Visited (Handle ι n)), SameMet identify seen met →
      (a.handle identify ∈ met ↔ ∃ h ∈ met, h.Same (a.handle identify)) ∧
      ∀ settings : Settings,
        (settings.textIn (Descriptor.shape declarations) a.descriptor seen).Alike
          (SameMet identify)
          (settings.textIn (Handle.shape identify declarations) (a.handle identify) met) := by
  refine ⟨?_, fun same => ?_, Handle.shape_handle .., info_eq_mapTypes distinct declarations a,
    fun _ => Descriptor.shape_congr distinct, fun seen met same => ⟨?_, fun settings => ?_⟩⟩
  · rw [handle_same_iff distinct, descriptor_eq_iff, sameTarget_iff]
  · have descriptors : a.descriptor = b.descriptor := (handle_same_iff distinct).1 same
    have handles : a.handle identify = b.handle identify := (handle_eq_iff distinct).2 descriptors
    rw [descriptors, handles]
    exact ⟨.refl _ _, .refl _ _⟩
  · rw [same.same_iff, ← handle_descriptor, same.mem_iff distinct]
  · rw [← handle_descriptor]
    have runs := (simulation_handle distinct declarations).derive settings.maxDepth
      settings.maxDepth (t := a.descriptor) trivial same
    exact runs.map settings.render

theorem TypeExpr.handle_coherent_links :
    let a : TypeExpr 1 := .pointer .atomic (.pointer .unique (.declared 0))
    let b : TypeExpr 1 := .pointer .shared (.declared 0)
    let redirected : Declarations 1 := fun i => (links i).mapTypes (.pointer .atomic)
    let seen : Visited (Descriptor 1) := Visited.empty.insert a.descriptor
    let met : Visited (Handle (TypeExpr 1) 1) := Visited.empty.insert (a.handle id)
    Function.Injective (id : TypeExpr 1 → TypeExpr 1) ∧ (a.handle id).Same (b.handle id) ∧
      a.SameTarget b ∧
      (Interchangeable (Handle.shape id links) (a.handle id) (b.handle id) ∧
        Interchangeable (Descriptor.shape links) a.descriptor b.descriptor) ∧
      ¬ (TypeExpr.handle id (.optional a)).Same (TypeExpr.handle id (.optional b)) ∧
      ¬ (TypeExpr.optional a).SameTarget (.optional b) ∧
      (redirected ≠ links ∧ Descriptor.shape redirected = Descriptor.shape links) ∧
      SameMet id seen met ∧
      (({} : Settings).textIn (Descriptor.shape links) b.descriptor seen).Alike (SameMet id)
        (({} : Settings).textIn (Handle.shape id links) (b.handle id) met) := by
  intro a b redirected seen met
  have distinct : Function.Injective (id : TypeExpr 1 → TypeExpr 1) := Function.injective_id
  have one : (a.handle id).Same (b.handle id) := rfl
  have two : ¬ (TypeExpr.handle id (.optional a)).Same (TypeExpr.handle id (.optional b)) :=
    fun h => absurd (show TypeExpr.optional a = .optional b from h) (by decide)
  have known : SameMet id seen met := by
    have start := SameMet.empty.insert distinct a.descriptor
    rwa [handle_descriptor] at start
  obtain ⟨target, stand, -, -, parts, -⟩ := handle_coherent distinct links a b
  obtain ⟨-, -, -, -, -, runs⟩ := handle_coherent distinct links b a
  refine ⟨distinct, one, target.1 one, stand one, two,
    mt (handle_coherent distinct links (.optional a) (.optional b)).1.2 two,
    ⟨fun h => absurd (congrFun h 0) (by decide), parts redirected fun i => ?_⟩, known,
    (runs seen met known).2 {}⟩
  exact Shape.mapTypes_mapTypes ..

end AvroSchemata
