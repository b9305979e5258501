import AvroSchemata.Proofs.Simulation
import AvroSchemata.TypeExpr
set_option autoImplicit false

/-!
Pointers do not show. Without them, wherever they stand, a type has the same schema or the same
failure. The one exception are pointers to bytes that lie side by side, since these make a sequence
and the bytes themselves do not.
-/

namespace AvroSchemata

variable {τ : Type} {n : Nat}

def TypeExpr.erase : TypeExpr n → TypeExpr n
  | .base b => .base b
  | .declared i => .declared i
  | .pointer _ target => target.erase
  | .optional item => .optional item.erase
  | .collection c item => .collection c item.erase
  | .map m key value => .map m key.erase value.erase

def Declarations.erase (declarations : Declarations n) : Declarations n :=
  fun i => (declarations i).mapTypes TypeExpr.erase

/-- Whether bytes lie side by side only as themselves: no contiguous collection at any depth has
pointers to bytes for its items. -/
def TypeExpr.HasDirectBytes : TypeExpr n → Prop
  | .base _ | .declared _ => True
  | .pointer _ target => target.HasDirectBytes
  | .optional item => item.HasDirectBytes
  | .collection c item =>
    (c.isContiguous = true → item.bare = .base .byte → item = .base .byte) ∧ item.HasDirectBytes
  | .map _ key value => key.HasDirectBytes ∧ value.HasDirectBytes

namespace TypeExpr

@[simp] theorem erase_bare (t : TypeExpr n) : t.bare.erase = t.erase := by
  induction t with
  | pointer _ _ ih => exact ih
  | _ => rfl

theorem erase_eq_base_iff {t : TypeExpr n} {b : BaseType} : t.erase = .base b ↔ t.bare = .base b := by
  induction t with
  | pointer _ _ ih => exact ih
  | base => exact .rfl
  | _ => simp [erase, bare]

theorem HasDirectBytes.descriptor {t : TypeExpr n} (h : t.HasDirectBytes) :
    t.descriptor.expr.HasDirectBytes := by
  induction t with
  | pointer _ _ ih => exact ih h
  | _ => exact h

end TypeExpr

def Descriptor.erase (d : Descriptor n) : Descriptor n := d.expr.erase.descriptor

theorem TypeExpr.descriptor_erase (t : TypeExpr n) : t.erase.descriptor = t.descriptor.erase := by
  have bare : t.descriptor.expr = t.bare := rfl
  rw [Descriptor.erase, bare, erase_bare]

def Declarations.HaveDirectBytes (declarations : Declarations n) : Prop :=
  ∀ i, (∀ t ∈ (declarations i).kind.arguments, t.HasDirectBytes) ∧
    ∀ m ∈ (declarations i).members, m.type.HasDirectBytes

variable {declarations : Declarations n}

theorem TypeExpr.shape_erase {t : TypeExpr n} (direct : t.HasDirectBytes) :
    t.erase.shape declarations.erase = (t.shape declarations).mapTypes Descriptor.erase := by
  induction t with
  | base b => exact (b.mapTypes_shape _).symm
  | declared i =>
    simp only [erase, shape, Declarations.erase, Shape.mapTypes_mapTypes, descriptor_erase]
  | pointer _ _ ih => exact ih direct
  | optional item =>
    rw [erase, shape, descriptor_erase]
    rfl
  | collection c item =>
    have same : (c.isContiguous = true ∧ item.erase = .base .byte) ↔
        (c.isContiguous = true ∧ item = .base .byte) :=
      and_congr_right fun hc => erase_eq_base_iff.trans
        ⟨direct.1 hc, fun h => by rw [h]; rfl⟩
    simp only [erase, shape, same, descriptor_erase]
    split <;> rfl
  | map m key value =>
    rw [erase, shape, descriptor_erase, descriptor_erase]
    rfl

theorem BaseType.parts_shape (b : BaseType) :
    (b.shape : Shape τ).kind.arguments = [] ∧ (b.shape : Shape τ).members = [] := by
  cases b <;> exact ⟨rfl, rfl⟩

theorem TypeExpr.hasDirectBytes_of_part {t : TypeExpr n} (direct : t.HasDirectBytes)
    (directs : declarations.HaveDirectBytes) :
    (∀ d ∈ (t.shape declarations).kind.arguments, d.expr.HasDirectBytes) ∧
      ∀ m ∈ (t.shape declarations).members, m.type.expr.HasDirectBytes := by
  induction t with
  | base b =>
    rw [shape, b.parts_shape.1, b.parts_shape.2]
    simp
  | declared i =>
    simp only [shape, Kind.arguments_mapTypes, Shape.mapTypes, List.forall_mem_map]
    exact ⟨fun t ht => ((directs i).1 t ht).descriptor, fun m hm => ((directs i).2 m hm).descriptor⟩
  | pointer _ _ ih => exact ih direct
  | optional item =>
    simpa [shape, Shape.optional, Kind.arguments] using HasDirectBytes.descriptor (t := item) direct
  | collection c item =>
    rw [shape]
    split
    · simp [Shape.primitive, Kind.arguments]
    · simpa [Shape.sequence, Kind.arguments] using direct.2.descriptor
  | map m key value =>
    simpa [shape, Shape.map, Kind.arguments] using
      And.intro direct.1.descriptor direct.2.descriptor

theorem TypeExpr.erase_of_isNamed {t : TypeExpr n} (bare : t.isPointer = false)
    (named : (t.shape declarations).kind.isNamed = true) : t.erase = t := by
  cases t with
  | base => rfl
  | declared => rfl
  | pointer => simp [isPointer] at bare
  | optional => simp [shape, Shape.optional, Kind.isNamed] at named
  | collection c item =>
    rw [shape] at named
    split at named
    · simp [Shape.primitive, Kind.isNamed] at named
    · simp [Shape.sequence, Kind.isNamed] at named
  | map => simp [shape, Shape.map, Kind.isNamed] at named

namespace Descriptor

variable {d e : Descriptor n}

theorem shape_erase (direct : d.expr.HasDirectBytes) :
    d.erase.shape declarations.erase = (d.shape declarations).mapTypes Descriptor.erase := by
  rw [Descriptor.erase, shape_descriptor]
  exact TypeExpr.shape_erase direct

theorem erase_of_isNamed (named : (d.shape declarations).kind.isNamed = true) : d.erase = d := by
  rw [Descriptor.erase, TypeExpr.erase_of_isNamed d.not_pointer named, descriptor_expr]

/-- Pointers may make types different, but never types with names. -/
theorem erase_eq_iff (hd : d.expr.HasDirectBytes) (he : e.expr.HasDirectBytes)
    (named : (d.shape declarations).kind.isNamed = true) : d.erase = e.erase ↔ d = e := by
  refine ⟨fun h => ?_, fun h => by rw [h]⟩
  -- both have one shape without pointers, so that both have names, and neither has pointers
  have shapes : (d.shape declarations).mapTypes Descriptor.erase =
      (e.shape declarations).mapTypes Descriptor.erase := by
    rw [← shape_erase hd, ← shape_erase he, h]
  have named' : (e.shape declarations).kind.isNamed = true := by
    rw [← Kind.isNamed_mapTypes Descriptor.erase, ← Shape.kind_mapTypes, ← shapes,
      Shape.kind_mapTypes, Kind.isNamed_mapTypes, named]
  rwa [erase_of_isNamed named, erase_of_isNamed named'] at h

end Descriptor

/-- Sets that agree on the types with names. -/
def SameErased (declarations : Declarations n) (seen seen' : Visited (Descriptor n)) : Prop :=
  ∀ d : Descriptor n, d.expr.HasDirectBytes → (d.shape declarations).kind.isNamed = true →
    (d.erase ∈ seen' ↔ d ∈ seen)

theorem SameErased.insert {seen seen' : Visited (Descriptor n)} {e : Descriptor n}
    (same : SameErased declarations seen seen') (he : e.expr.HasDirectBytes) :
    SameErased declarations (seen.insert e) (seen'.insert e.erase) := by
  intro d hd named
  rw [Visited.mem_insert, Visited.mem_insert, Descriptor.erase_eq_iff hd he named,
    same d hd named]

theorem simulation_erase (directs : declarations.HaveDirectBytes) :
    Simulation (Descriptor.shape declarations) (Descriptor.shape declarations.erase)
      Descriptor.erase (fun d => d.expr.HasDirectBytes) (SameErased declarations) where
  alike := fun _ direct => readsAlike_of_mapTypes (Descriptor.shape_erase direct) fun e he =>
    Descriptor.shape_erase ((TypeExpr.hasDirectBytes_of_part direct directs).1 e he)
  closed := fun _ direct _ => (TypeExpr.hasDirectBytes_of_part direct directs).2
  mem_iff := fun _ _ d same direct named => same d direct named
  insert := fun _ _ _ same direct => same.insert direct

/-- Without its pointers and those of all declared types, a type has the same text or the same
failure, whatever the settings, as long as bytes lie side by side only as themselves. Pointers to
bytes that do make a sequence, and bytes when they are left out. -/
theorem Settings.text_erase (settings : Settings) (declarations : Declarations n)
    (t : TypeExpr n) :
    (t.HasDirectBytes → declarations.HaveDirectBytes →
      settings.text (Descriptor.shape declarations.erase) t.erase.descriptor =
        settings.text (Descriptor.shape declarations) t.descriptor) ∧
    ∀ c item, t = .collection c item → c.isContiguous = true → item.isPointer = true →
      item.bare = .base .byte →
        t.shape declarations = .sequence c.declared item.descriptor ∧
          t.erase.shape declarations.erase = .primitive .bytes := by
  refine ⟨fun direct directs => ?_, fun c item he contiguous pointer bytes => ?_⟩
  · rw [TypeExpr.descriptor_erase]
    refine (simulation_erase directs).text settings direct.descriptor fun d _ _ => ?_
    simp
  · subst he
    have other : item ≠ .base .byte := by
      rintro rfl
      simp [TypeExpr.isPointer] at pointer
    have erased : item.erase = .base .byte := TypeExpr.erase_eq_base_iff.2 bytes
    constructor
    · rw [TypeExpr.shape, if_neg fun h => other h.2]
    · rw [TypeExpr.erase, TypeExpr.shape, if_pos ⟨contiguous, erased⟩]

def links : Declarations 1 := fun link =>
  ⟨⟨"chain", "Link"⟩, .record,
    [⟨"value", .pointer .unique (.collection .growable (.base .byte))⟩,
      ⟨"next", .optional (.pointer .unique (.declared link))⟩,
      ⟨"first", .pointer .shared (.optional (.declared link))⟩,
      ⟨"last", .pointer .atomic (.pointer .shared (.declared link))⟩]⟩

theorem Settings.text_erase_links :
    let t : TypeExpr 1 := .pointer .atomic (.declared 0)
    let boxed : TypeExpr 1 := .collection .growable (.pointer .unique (.base .byte))
    t.HasDirectBytes ∧ links.HaveDirectBytes ∧ links.erase ≠ links ∧
      (∃ text, ({} : Settings).text (Descriptor.shape links) t.descriptor = .ok text ∧
        ({} : Settings).text (Descriptor.shape links.erase) t.erase.descriptor = .ok text) ∧
      boxed.shape links = .sequence ⟨"alloc.vec", "Vec"⟩ (TypeExpr.base .byte).descriptor ∧
      boxed.erase.shape links.erase = .primitive .bytes := by
  intro t boxed
  have direct : t.HasDirectBytes := trivial
  have directs : links.HaveDirectBytes := by
    simp [Declarations.HaveDirectBytes, links, Kind.arguments, TypeExpr.HasDirectBytes]
  obtain ⟨text, ok⟩ :
      ∃ text, ({} : Settings).text (Descriptor.shape links) t.descriptor = .ok text := ⟨_, rfl⟩
  refine ⟨direct, directs, fun h => absurd (congrFun h 0) (by decide), ⟨text, ok, ?_⟩,
    (text_erase {} links boxed).2 .growable (.pointer .unique (.base .byte)) rfl rfl rfl rfl⟩
  rw [(text_erase {} links t).1 direct directs, ok]

end AvroSchemata
