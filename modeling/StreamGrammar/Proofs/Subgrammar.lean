import StreamGrammar.Grammar.Basic

/-! # The grammars inside a grammar

`Grammar.Everywhere`: a condition on single nodes, required of a grammar and of all grammars inside it.
`Grammar.mapPrimitives`: the grammar of the same shape with other primitives. `Grammar.consuming`: the
syntactic rule by which a grammar consumes something whenever it matches; it is sound by
`Contract.parse`. `Grammar.references`: the deferred grammars inside a grammar, with the places where
something has been consumed before they are reached. -/

namespace StreamGrammar
namespace Grammar

/-- The grammars right inside a grammar. -/
def children : Grammar → List Grammar
  | primitive _ => []
  | custom _ _ => []
  | sequence _ parts => parts
  | choice first rest => first :: rest
  | repeated _ g => [g]
  | manyTill g terminator => [g, terminator]
  | separated _ separator g => [separator, g]
  | adapted _ g => [g]
  | deferred _ _ => []

/-- `P` holds of the grammar and of every grammar inside it. -/
inductive Everywhere (P : Grammar → Prop) : Grammar → Prop
  | intro {g : Grammar} : P g → (∀ h ∈ g.children, Everywhere P h) → Everywhere P g

namespace Everywhere
variable {P Q : Grammar → Prop} {g : Grammar}

theorem node : Everywhere P g → P g
  | intro h _ => h

theorem child {h : Grammar} : Everywhere P g → h ∈ g.children → Everywhere P h
  | intro _ hs, hh => hs h hh

theorem mono (hPQ : ∀ g, P g → Q g) (h : Everywhere P g) : Everywhere Q g := by
  induction h with
  | intro hg _ ih => exact intro (hPQ _ hg) ih

theorem iff : Everywhere P g ↔ P g ∧ ∀ h ∈ g.children, Everywhere P h :=
  ⟨fun h => ⟨h.node, fun _ => h.child⟩, fun h => intro h.1 h.2⟩

@[simp] theorem primitive_iff {p : Primitive} : Everywhere P (primitive p) ↔ P (primitive p) := by
  rw [iff]; simp [children]

@[simp] theorem custom_iff {name : String} {run : View → Except Fault (Outcome Value)} :
    Everywhere P (custom name run) ↔ P (custom name run) := by
  rw [iff]; simp [children]

@[simp] theorem sequence_iff {a : Assembly} {parts : List Grammar} :
    Everywhere P (sequence a parts) ↔ P (sequence a parts) ∧ ∀ g ∈ parts, Everywhere P g := by
  rw [iff]; rfl

@[simp] theorem choice_iff {first : Grammar} {rest : List Grammar} :
    Everywhere P (choice first rest) ↔
      P (choice first rest) ∧ Everywhere P first ∧ ∀ g ∈ rest, Everywhere P g := by
  rw [iff]; simp [children]

@[simp] theorem repeated_iff {r : Repetition} :
    Everywhere P (repeated r g) ↔ P (repeated r g) ∧ Everywhere P g := by
  rw [iff]; simp [children]

@[simp] theorem manyTill_iff {t : Grammar} :
    Everywhere P (manyTill g t) ↔ P (manyTill g t) ∧ Everywhere P g ∧ Everywhere P t := by
  rw [iff]; simp [children]

@[simp] theorem separated_iff {nonempty : Bool} {s : Grammar} :
    Everywhere P (separated nonempty s g) ↔
      P (separated nonempty s g) ∧ Everywhere P s ∧ Everywhere P g := by
  rw [iff]; simp [children]

@[simp] theorem adapted_iff {a : Adapter} :
    Everywhere P (adapted a g) ↔ P (adapted a g) ∧ Everywhere P g := by
  rw [iff]; simp [children]

@[simp] theorem deferred_iff {name : String} {key : Key} :
    Everywhere P (deferred name key) ↔ P (deferred name key) := by
  rw [iff]; simp [children]

theorem of_forall (h : ∀ g, P g) (g : Grammar) : Everywhere P g := by
  induction g with
  | primitive p => exact primitive_iff.2 (h _)
  | custom name run => exact custom_iff.2 (h _)
  | sequence assembly parts ih => exact sequence_iff.2 ⟨h _, ih⟩
  | choice first rest ih ihs => exact choice_iff.2 ⟨h _, ih, ihs⟩
  | repeated r g ih => exact repeated_iff.2 ⟨h _, ih⟩
  | manyTill g terminator ih iht => exact manyTill_iff.2 ⟨h _, ih, iht⟩
  | separated nonempty separator g ihs ih => exact separated_iff.2 ⟨h _, ihs, ih⟩
  | adapted a g ih => exact adapted_iff.2 ⟨h _, ih⟩
  | deferred name key => exact deferred_iff.2 (h _)

end Everywhere

mutual

/-- The grammar with `f` applied to its primitives. -/
def mapPrimitives (f : Primitive → Primitive) : Grammar → Grammar
  | primitive p => primitive (f p)
  | custom name run => custom name run
  | sequence assembly parts => sequence assembly (mapPrimitivesAll f parts)
  | choice first rest => choice (mapPrimitives f first) (mapPrimitivesAll f rest)
  | repeated r g => repeated r (mapPrimitives f g)
  | manyTill g terminator => manyTill (mapPrimitives f g) (mapPrimitives f terminator)
  | separated nonempty separator g => separated nonempty (mapPrimitives f separator) (mapPrimitives f g)
  | adapted a g => adapted a (mapPrimitives f g)
  | deferred name key => deferred name key

def mapPrimitivesAll (f : Primitive → Primitive) : List Grammar → List Grammar
  | [] => []
  | g :: gs => mapPrimitives f g :: mapPrimitivesAll f gs

end

@[simp] theorem mapPrimitivesAll_eq_map (f : Primitive → Primitive) (gs : List Grammar) :
    mapPrimitivesAll f gs = gs.map (mapPrimitives f) := by
  induction gs with
  | nil => rfl
  | cons g gs ih => simp [mapPrimitivesAll, ih]

theorem children_mapPrimitives (f : Primitive → Primitive) (g : Grammar) :
    (g.mapPrimitives f).children = g.children.map (mapPrimitives f) := by
  cases g <;> simp [mapPrimitives, children]

theorem Everywhere.mapPrimitives {P Q : Grammar → Prop} {f : Primitive → Primitive} {g : Grammar}
    (hPQ : ∀ g, Q g → P (g.mapPrimitives f)) (h : Everywhere Q g) : Everywhere P (g.mapPrimitives f) := by
  induction h with
  | intro hg _ ih =>
    refine intro (hPQ _ hg) fun h hh => ?_
    rw [children_mapPrimitives] at hh
    obtain ⟨h', hh', rfl⟩ := List.mem_map.1 hh
    exact ih h' hh'

theorem mapPrimitives_id (g : Grammar) : g.mapPrimitives id = g := by
  have hmap : ∀ gs : List Grammar, (∀ g ∈ gs, g.mapPrimitives id = g) → gs.map (mapPrimitives id) = gs :=
    fun gs h => (List.map_congr_left h).trans gs.map_id
  induction g with
  | primitive p => rfl
  | custom name run => rfl
  | sequence assembly parts ih => rw [mapPrimitives, mapPrimitivesAll_eq_map, hmap parts ih]
  | choice first rest ih ihs => rw [mapPrimitives, mapPrimitivesAll_eq_map, ih, hmap rest ihs]
  | repeated r g ih => rw [mapPrimitives, ih]
  | manyTill g terminator ih iht => rw [mapPrimitives, ih, iht]
  | separated nonempty separator g ihs ih => rw [mapPrimitives, ihs, ih]
  | adapted a g ih => rw [mapPrimitives, ih]
  | deferred name key => rfl

/-- The grammar is made of primitives and combinators; there is no hand-made leaf in it. -/
def Library (g : Grammar) : Prop :=
  g.Everywhere fun h => ∀ name run, h ≠ custom name run

end Grammar

/-! ### Grammars that consume -/

/-- A match of the primitive is not empty. Only a literal or count that no constructor accepts makes a
difference here. -/
def Primitive.consuming : Primitive → Bool
  | tag literal => literal.length != 0
  | tagNoCase literal => literal.length != 0
  | take count => count.toNat != 0
  | takeUntil _ _ => false
  | unit _ _ _ _ => true
  | run _ _ _ => true
  | lineEnding _ => true
  | endOfInput => false
  | integer format => format.width != 0

/-- At least one match is asked for, and is not beyond the bound. -/
def Repetition.consuming : Repetition → Bool
  | many0 => false
  | many1 => true
  | between least most => 1 ≤ least.toNat && least.toNat ≤ most.toNat
  | times count => 1 ≤ count.toNat
  | fold0 _ _ => false
  | fold1 _ _ => true

/-- A match of the adapter is one of its grammar, and is consumed. -/
def Adapter.consuming : Adapter → Bool
  | optional => false
  | peek => false
  | negate => false
  | cond _ => false
  | _ => true

namespace Grammar

mutual

/-- By its syntax the grammar consumes something whenever it matches, if the deferred grammars that are
`known` to do so do. -/
def consuming (known : Key → Bool) : Grammar → Bool
  | primitive p => p.consuming
  | custom _ _ => false
  | sequence _ parts => consumingAny known parts
  | choice first rest => consuming known first && consumingAll known rest
  | repeated r g => r.consuming && consuming known g
  | manyTill _ terminator => consuming known terminator
  | separated nonempty _ g => nonempty && consuming known g
  | adapted a g => a.consuming && consuming known g
  | deferred _ key => known key

def consumingAny (known : Key → Bool) : List Grammar → Bool
  | [] => false
  | g :: gs => consuming known g || consumingAny known gs

def consumingAll (known : Key → Bool) : List Grammar → Bool
  | [] => true
  | g :: gs => consuming known g && consumingAll known gs

end

@[simp] theorem consumingAny_eq_any (known : Key → Bool) (gs : List Grammar) :
    consumingAny known gs = gs.any (consuming known) := by
  induction gs with
  | nil => rfl
  | cons g gs ih => simp [consumingAny, ih]

@[simp] theorem consumingAll_eq_all (known : Key → Bool) (gs : List Grammar) :
    consumingAll known gs = gs.all (consuming known) := by
  induction gs with
  | nil => rfl
  | cons g gs ih => simp [consumingAll, ih]

end Grammar

/-! ### References to deferred grammars -/

/-- A deferred grammar that stands somewhere inside a grammar. -/
structure Reference where
  key : Key
  /-- Whoever comes there has consumed something since the whole was begun. -/
  guarded : Bool
  deriving DecidableEq, Repr

/-- The reference seen from further outside, where it may be behind something that consumes. -/
def Reference.behind (consumed : Bool) (r : Reference) : Reference :=
  { r with guarded := consumed || r.guarded }

namespace Grammar

mutual

/-- All references to deferred grammars. They are guarded behind a step of a sequence that is `consuming`,
and in the separator of a list whose items are. -/
def references (known : Key → Bool) : Grammar → List Reference
  | primitive _ => []
  | custom _ _ => []
  | sequence _ parts => referencesInRow known false parts
  | choice first rest => references known first ++ referencesOfAll known rest
  | repeated _ g => references known g
  | manyTill g terminator => references known g ++ references known terminator
  | separated _ separator g =>
    (references known separator).map (.behind (consuming known g)) ++ references known g
  | adapted _ g => references known g
  | deferred _ key => [⟨key, false⟩]

/-- The references in steps that come one after the other, `consumed` if a step before them consumes. -/
def referencesInRow (known : Key → Bool) : (consumed : Bool) → List Grammar → List Reference
  | _, [] => []
  | consumed, g :: gs => (references known g).map (.behind consumed) ++
    referencesInRow known (consumed || consuming known g) gs

def referencesOfAll (known : Key → Bool) : List Grammar → List Reference
  | [] => []
  | g :: gs => references known g ++ referencesOfAll known gs

end

@[simp] theorem referencesOfAll_eq_flatMap (known : Key → Bool) (gs : List Grammar) :
    referencesOfAll known gs = gs.flatMap (references known) := by
  induction gs with
  | nil => rfl
  | cons g gs ih => simp [referencesOfAll, ih]

/-- Every reference is one to a deferred grammar inside. -/
theorem Everywhere.reference {P : Grammar → Prop} {g : Grammar} (h : Everywhere P g) {known : Key → Bool}
    {r : Reference} (hr : r ∈ g.references known) : ∃ name, P (deferred name r.key) := by
  have hrow : ∀ (gs : List Grammar), (∀ g ∈ gs, ∀ r ∈ g.references known, ∃ name, P (deferred name r.key)) →
      ∀ consumed, ∀ r ∈ referencesInRow known consumed gs, ∃ name, P (deferred name r.key) := by
    intro gs
    induction gs with
    | nil => intro _ _ r hr; cases hr
    | cons g gs ih =>
      intro hgs consumed r hr
      rw [referencesInRow, List.mem_append, List.mem_map] at hr
      obtain ⟨r', hr', rfl⟩ | hr := hr
      · exact hgs g (.head _) r' hr'
      · exact ih (fun g hg => hgs g (.tail _ hg)) _ r hr
  induction h generalizing r with
  | @intro g hnode _ ih =>
    cases g with
    | primitive p => simp [references] at hr
    | custom name run => simp [references] at hr
    | sequence assembly parts =>
      rw [references] at hr
      exact hrow parts (fun g hg r hr => ih g hg hr) _ r hr
    | choice first rest =>
      simp only [references, referencesOfAll_eq_flatMap, List.mem_append, List.mem_flatMap] at hr
      obtain hr | ⟨h, hh, hr⟩ := hr
      · exact ih first (.head _) hr
      · exact ih h (.tail _ hh) hr
    | repeated _ g => exact ih g (.head _) hr
    | manyTill g terminator =>
      rw [references, List.mem_append] at hr
      obtain hr | hr := hr
      · exact ih g (.head _) hr
      · exact ih terminator (.tail _ (.head _)) hr
    | separated nonempty separator g =>
      rw [references, List.mem_append, List.mem_map] at hr
      obtain ⟨r', hr', rfl⟩ | hr := hr
      · exact ih separator (.head _) (r := r') hr'
      · exact ih g (.tail _ (.head _)) hr
    | adapted a g => exact ih g (.head _) hr
    | deferred name key =>
      rw [references, List.mem_singleton] at hr
      exact ⟨name, hr ▸ hnode⟩

end Grammar
end StreamGrammar
