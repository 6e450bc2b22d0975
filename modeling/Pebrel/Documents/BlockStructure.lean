import Mathlib.Data.List.Forall2
import Pebrel.Library.Splice
import Pebrel.Library.Text

/-!
# The parts of a block

A block of a document is edited by its parts: each part has a range of the source, and the
markers, fences and cell borders around it are not in any part (`block_structure.rs`).
After an edit of a part all other ranges are moved, and those of the containers that have
the part become longer or shorter. Which containers have the part is told by their ranges
only, so a container that touches an empty part is taken for one that has it; between
the containers of a document there is at least a line break.

## The model

A source is a list of bytes, of any type. The texts of a structure are of interest to the
view only, and nothing here reads them.
-/

namespace Pebrel.Documents

open Library Splice List Option

/-! ### Structures -/

inductive PartKind where
  | rich
  | code (language : Text)
  | math
  | source

structure ImageReference where
  identifier : Text
  alt : Text

structure EditPart where
  range : Range
  kind : PartKind
  heading : Option ℕ
  preview : Option Text
  imageReference : Option ImageReference

structure Marks where
  bold : Bool
  italic : Bool
  strike : Bool
  link : Bool
  code : Bool

structure InlineRun where
  part : ℕ
  marks : Marks
  object : Bool

inductive AlignKind where
  | left
  | right
  | center
  | none

mutual

inductive StructureNode where
  | text (part : ℕ)
  | inline (runs : List InlineRun)
  | literal (part : ℕ)
  | code (part : ℕ) (span : Range) (language : Text)
  | math (part : ℕ) (span : Range)
  | list (items : List ListItem)
  | quote (children : List StructureNode)
  | table (rows : List (List ℕ)) (align : List AlignKind) (span : Range)

inductive ListItem where
  | mk (range prefixRange : Range) (marker : Text) (check : Option Range) (children : List StructureNode)

end

structure BlockStructure where
  root : StructureNode
  parts : List EditPart

/-! ### Replacing a part -/

def shift (old : Range) (delta : ℤ) (range : Range) : Range :=
  if old.stop ≤ range.start then range.moved delta
  else if old.start < range.stop then { range with stop := ((range.stop : ℤ) + delta).toNat }
  else range

def shiftContainer (old : Range) (delta : ℤ) (range : Range) : Range :=
  if range.start ≤ old.start ∧ old.stop ≤ range.stop then { range with stop := ((range.stop : ℤ) + delta).toNat }
  else shift old delta range

mutual

def StructureNode.shift (old : Range) (delta : ℤ) : StructureNode → StructureNode
  | .text part => .text part
  | .inline runs => .inline runs
  | .literal part => .literal part
  | .code part span language => .code part (shiftContainer old delta span) language
  | .math part span => .math part (shiftContainer old delta span)
  | .table rows align span => .table rows align (shiftContainer old delta span)
  | .list items => .list (shiftItems old delta items)
  | .quote children => .quote (shiftNodes old delta children)

def shiftItem (old : Range) (delta : ℤ) : ListItem → ListItem
  | .mk range prefixRange marker check children =>
    .mk (shiftContainer old delta range) (Documents.shift old delta prefixRange) marker (check.map (Documents.shift old delta))
      (shiftNodes old delta children)

def shiftItems (old : Range) (delta : ℤ) : List ListItem → List ListItem
  | [] => []
  | item :: items => shiftItem old delta item :: shiftItems old delta items

def shiftNodes (old : Range) (delta : ℤ) : List StructureNode → List StructureNode
  | [] => []
  | node :: nodes => node.shift old delta :: shiftNodes old delta nodes

end

/-- `BlockStructure::replace_part`; there is no value where an index is out of range. -/
def BlockStructure.replacePart (s : BlockStructure) (part length : ℕ) : Option BlockStructure :=
  s.parts[part]?.map fun edited =>
    let old := edited.range
    let delta : ℤ := length - old.length
    { root := s.root.shift old delta
      parts := s.parts.mapIdx fun i edit =>
        if i = part then { edit with range := ⟨old.start, old.start + length⟩, preview := none, imageReference := none }
        else { edit with range := shift old delta edit.range } }

/-! ### What the ranges are of -/

mutual

/-- The containers with their parts. -/
def StructureNode.containers : StructureNode → List (Range × List ℕ)
  | .text _ | .inline _ | .literal _ => []
  | .code part span _ | .math part span => [(span, [part])]
  | .table rows _ span => [(span, rows.flatten)]
  | .list items => itemsContainers items
  | .quote children => nodesContainers children

/-- The parts of a node. -/
def StructureNode.parts : StructureNode → List ℕ
  | .text part | .literal part | .code part _ _ | .math part _ => [part]
  | .inline runs => runs.map InlineRun.part
  | .table rows _ _ => rows.flatten
  | .list items => itemsParts items
  | .quote children => nodesParts children

/-- The ranges of the markers and check boxes of a node. -/
def StructureNode.markers : StructureNode → List Range
  | .text _ | .inline _ | .literal _ | .code _ _ _ | .math _ _ | .table _ _ _ => []
  | .list items => itemsMarkers items
  | .quote children => nodesMarkers children

def itemsContainers : List ListItem → List (Range × List ℕ)
  | [] => []
  | .mk range _ _ _ children :: items => (range, nodesParts children) :: nodesContainers children ++ itemsContainers items

def itemsParts : List ListItem → List ℕ
  | [] => []
  | .mk _ _ _ _ children :: items => nodesParts children ++ itemsParts items

def itemsMarkers : List ListItem → List Range
  | [] => []
  | .mk _ prefixRange _ check children :: items => prefixRange :: check.toList ++ nodesMarkers children ++ itemsMarkers items

def nodesContainers : List StructureNode → List (Range × List ℕ)
  | [] => []
  | node :: nodes => node.containers ++ nodesContainers nodes

def nodesParts : List StructureNode → List ℕ
  | [] => []
  | node :: nodes => node.parts ++ nodesParts nodes

def nodesMarkers : List StructureNode → List Range
  | [] => []
  | node :: nodes => node.markers ++ nodesMarkers nodes

end

/-! ### The tree is kept -/

section Tree

variable (old : Range) (delta : ℤ)

mutual

theorem parts_shift : ∀ n : StructureNode, (n.shift old delta).parts = n.parts
  | .text _ | .inline _ | .literal _ | .code _ _ _ | .math _ _ | .table _ _ _ => by simp only [StructureNode.shift, StructureNode.parts]
  | .list items => by simp only [StructureNode.shift, StructureNode.parts, itemsParts_shift items]
  | .quote children => by simp only [StructureNode.shift, StructureNode.parts, nodesParts_shift children]

theorem itemsParts_shift : ∀ items : List ListItem, itemsParts (shiftItems old delta items) = itemsParts items
  | [] => by simp only [shiftItems]
  | .mk _ _ _ _ children :: items => by simp only [shiftItems, shiftItem, itemsParts, nodesParts_shift children, itemsParts_shift items]

theorem nodesParts_shift : ∀ nodes : List StructureNode, nodesParts (shiftNodes old delta nodes) = nodesParts nodes
  | [] => by simp only [shiftNodes]
  | node :: nodes => by simp only [shiftNodes, nodesParts, parts_shift node, nodesParts_shift nodes]

end

/-- What becomes of a container. -/
def shiftedContainer (c : Range × List ℕ) : Range × List ℕ := (shiftContainer old delta c.1, c.2)

mutual

theorem containers_shift : ∀ n : StructureNode, (n.shift old delta).containers = n.containers.map (shiftedContainer old delta)
  | .text _ | .inline _ | .literal _ | .code _ _ _ | .math _ _ | .table _ _ _ => by
    simp only [StructureNode.shift, StructureNode.containers, map_cons, map_nil, shiftedContainer]
  | .list items => by simp only [StructureNode.shift, StructureNode.containers, itemsContainers_shift items]
  | .quote children => by simp only [StructureNode.shift, StructureNode.containers, nodesContainers_shift children]

theorem itemsContainers_shift : ∀ items : List ListItem,
    itemsContainers (shiftItems old delta items) = (itemsContainers items).map (shiftedContainer old delta)
  | [] => by simp only [shiftItems, itemsContainers, map_nil]
  | .mk _ _ _ _ children :: items => by
    simp only [shiftItems, shiftItem, itemsContainers, nodesParts_shift, nodesContainers_shift children, itemsContainers_shift items,
      cons_append, map_cons, map_append, shiftedContainer]

theorem nodesContainers_shift : ∀ nodes : List StructureNode,
    nodesContainers (shiftNodes old delta nodes) = (nodesContainers nodes).map (shiftedContainer old delta)
  | [] => by simp only [shiftNodes, nodesContainers, map_nil]
  | node :: nodes => by
    simp only [shiftNodes, nodesContainers, containers_shift node, nodesContainers_shift nodes, map_append]

end

mutual

theorem markers_shift : ∀ n : StructureNode, (n.shift old delta).markers = n.markers.map (shift old delta)
  | .text _ | .inline _ | .literal _ | .code _ _ _ | .math _ _ | .table _ _ _ => by
    simp only [StructureNode.shift, StructureNode.markers, map_nil]
  | .list items => by simp only [StructureNode.shift, StructureNode.markers, itemsMarkers_shift items]
  | .quote children => by simp only [StructureNode.shift, StructureNode.markers, nodesMarkers_shift children]

theorem itemsMarkers_shift : ∀ items : List ListItem, itemsMarkers (shiftItems old delta items) = (itemsMarkers items).map (shift old delta)
  | [] => by simp only [shiftItems, itemsMarkers, map_nil]
  | .mk _ _ _ check children :: items => by
    simp only [shiftItems, shiftItem, itemsMarkers, nodesMarkers_shift children, itemsMarkers_shift items, cons_append, map_cons,
      map_append]
    cases check <;> rfl

theorem nodesMarkers_shift : ∀ nodes : List StructureNode,
    nodesMarkers (shiftNodes old delta nodes) = (nodesMarkers nodes).map (shift old delta)
  | [] => by simp only [shiftNodes, nodesMarkers, map_nil]
  | node :: nodes => by simp only [shiftNodes, nodesMarkers, markers_shift node, nodesMarkers_shift nodes, map_append]

end

end Tree

/-! ### The ranges are kept -/

section Ranges

variable {α : Type} {source text : List α} {old r : Range}

/-- A range beside the part has what it had. -/
theorem slice_shift (hold : old.Within source.length) (hr : r.start ≤ r.stop) (h : r.stop ≤ old.start ∨ old.stop ≤ r.start) :
    slice (splice source old text) (shift old (text.length - old.length) r) = slice source r := by
  rw [shift]
  split
  · rename_i ha
    exact slice_splice_after hold ha hr
  rename_i ha
  have hb := h.resolve_right ha
  rw [if_neg (by omega)]
  exact slice_splice_before hold hb

/-- A container that has the part ends as much later as the part is longer. -/
theorem shiftContainer_around (h : r.start ≤ old.start ∧ old.stop ≤ r.stop) (hold : old.start ≤ old.stop) (length : ℕ) :
    (shiftContainer old (length - old.length) r).start = r.start ∧
      (shiftContainer old (length - old.length) r).stop + old.length = r.stop + length := by
  rw [shiftContainer, if_pos h]
  refine ⟨rfl, ?_⟩
  simp only [Range.length]
  omega

/-- A container beside the part has what it had, unless the part is empty and the container touches it. -/
theorem slice_shiftContainer (hold : old.Within source.length) (hr : r.start ≤ r.stop) (h : r.stop ≤ old.start ∨ old.stop ≤ r.start)
    (hap : ¬ (r.start ≤ old.start ∧ old.stop ≤ r.stop)) :
    slice (splice source old text) (shiftContainer old (text.length - old.length) r) = slice source r := by
  rw [shiftContainer, if_neg hap]
  exact slice_shift hold hr h

end Ranges

/-! ### The structure of a source -/

section Source

variable {α : Type}

/-- The structure is one of the source: parts are in order and do not overlap, containers have their parts in them and no
others, and markers are in no part. -/
structure BlockStructure.Fits (s : BlockStructure) (source : List α) : Prop where
  within : ∀ p ∈ s.parts, p.range.Within source.length
  ordered : s.parts.Pairwise fun p q => p.range.stop ≤ q.range.start
  container : ∀ c ∈ s.root.containers, c.1.Within source.length ∧ ∀ i p, s.parts[i]? = some p →
    if i ∈ c.2 then c.1.start ≤ p.range.start ∧ p.range.stop ≤ c.1.stop else c.1.stop ≤ p.range.start ∨ p.range.stop ≤ c.1.start
  nested : s.root.containers.Pairwise fun c d =>
    c.1.stop ≤ d.1.start ∨ d.1.stop ≤ c.1.start ∨ c.1.start ≤ d.1.start ∧ d.1.stop ≤ c.1.stop ∨ d.1.start ≤ c.1.start ∧ c.1.stop ≤ d.1.stop
  marker : ∀ r ∈ s.root.markers, r.Within source.length ∧ ∀ p ∈ s.parts, r.stop ≤ p.range.start ∨ p.range.stop ≤ r.start

/-- An empty part is not touched by a container that does not have it, if something is put into it. -/
def BlockStructure.Apart (s : BlockStructure) (part : ℕ) (text : List α) : Prop :=
  ∀ p, s.parts[part]? = some p → p.range.start = p.range.stop → text ≠ [] →
    ∀ c ∈ s.root.containers, part ∉ c.2 → c.1.start ≠ p.range.start ∧ c.1.stop ≠ p.range.start

/-- After a part with the range `old` was replaced by `text`. -/
structure Survives (s s' : BlockStructure) (source : List α) (part : ℕ) (old : Range) (text : List α) : Prop where
  length : s'.parts.length = s.parts.length
  edited : ∀ p', s'.parts[part]? = some p' → slice (splice source old text) p'.range = text
  others : ∀ i p p', i ≠ part → s.parts[i]? = some p → s'.parts[i]? = some p' →
    p' = { p with range := p'.range } ∧ slice (splice source old text) p'.range = slice source p.range
  markers : List.Forall₂ (fun r r' => slice (splice source old text) r' = slice source r) s.root.markers s'.root.markers
  containers : List.Forall₂ (fun c c' => c'.2 = c.2 ∧
    if part ∈ c.2 then c'.1.start = c.1.start ∧ c'.1.stop + old.length = c.1.stop + text.length
    else slice (splice source old text) c'.1 = slice source c.1) s.root.containers s'.root.containers

/-- Two parts do not overlap. -/
theorem BlockStructure.Fits.beside {s : BlockStructure} {source : List α} (h : s.Fits source) {i j : ℕ} {p q : EditPart}
    (hp : s.parts[i]? = some p) (hq : s.parts[j]? = some q) (hne : i ≠ j) : p.range.stop ≤ q.range.start ∨ q.range.stop ≤ p.range.start := by
  obtain ⟨hi, rfl⟩ := List.getElem?_eq_some_iff.mp hp
  obtain ⟨hj, rfl⟩ := List.getElem?_eq_some_iff.mp hq
  rcases Nat.lt_or_gt_of_ne hne with hlt | hgt
  · exact .inl (pairwise_iff_getElem.mp h.ordered i j hi hj hlt)
  · exact .inr (pairwise_iff_getElem.mp h.ordered j i hj hi hgt)

/-- One container. -/
theorem BlockStructure.Fits.shiftedContainer {s : BlockStructure} {source text : List α} (h : s.Fits source) {part : ℕ} {edited : EditPart}
    (hed : s.parts[part]? = some edited) (hap : s.Apart part text) {c : Range × List ℕ} (hc : c ∈ s.root.containers) :
    let c' := Documents.shiftedContainer edited.range (text.length - edited.range.length) c
    c'.2 = c.2 ∧ if part ∈ c.2 then c'.1.start = c.1.start ∧ c'.1.stop + edited.range.length = c.1.stop + text.length
      else slice (splice source edited.range text) c'.1 = slice source c.1 := by
  have hold := h.within edited (mem_of_getElem? hed)
  obtain ⟨hw, hps⟩ := h.container c hc
  have hpt := hps part edited hed
  refine ⟨rfl, ?_⟩
  split at hpt
  · rename_i hm
    rw [if_pos hm]
    exact shiftContainer_around hpt hold.1 text.length
  rename_i hm
  rw [if_neg hm]
  by_cases htou : c.1.start ≤ edited.range.start ∧ edited.range.stop ≤ c.1.stop
  · have he : edited.range.start = edited.range.stop := by
      have := hold.1
      omega
    have ht : text = [] := by
      by_contra ht
      have := hap edited hed he ht c hc hm
      omega
    subst ht
    have hsm : splice source edited.range [] = source := by
      rw [splice, he, append_nil, take_append_drop]
    have hl : edited.range.length = 0 := by rw [Range.length, he, Nat.sub_self]
    have hrg : (Documents.shiftedContainer edited.range (([] : List α).length - edited.range.length) c).1 = c.1 := by
      simp [Documents.shiftedContainer, shiftContainer, htou, hl]
    rw [hsm, hrg]
  · exact slice_shiftContainer hold hw.1 hpt htou

/-- **The structure survives an edit** of any part, as long as no container touches the part without having it. -/
theorem replacePart_survives (s s' : BlockStructure) (source : List α) (part : ℕ) (edited : EditPart) (text : List α) (h : s.Fits source)
    (hedited : s.parts[part]? = some edited) (hapart : s.Apart part text) (hreplace : s.replacePart part text.length = some s') :
    Survives s s' source part edited.range text := by
  rw [BlockStructure.replacePart, hedited, map_some] at hreplace
  obtain rfl := some.inj hreplace
  have hold := h.within edited (mem_of_getElem? hedited)
  refine ⟨length_mapIdx, fun p' hp' => ?_, fun i p p' hne hp hp' => ?_, ?_, ?_⟩
  · rw [getElem?_mapIdx, hedited, map_some, if_pos rfl] at hp'
    cases hp'
    exact slice_splice_self hold
  · rw [getElem?_mapIdx, hp, map_some, if_neg hne] at hp'
    cases hp'
    exact ⟨rfl, slice_shift hold (h.within p (mem_of_getElem? hp)).1 (h.beside hp hedited hne)⟩
  · dsimp only
    rw [markers_shift]
    refine forall₂_map_right_iff.mpr (forall₂_same.mpr fun r hr => ?_)
    obtain ⟨hwth, hps⟩ := h.marker r hr
    exact slice_shift hold hwth.1 (hps edited (mem_of_getElem? hedited))
  · dsimp only
    rw [containers_shift]
    exact forall₂_map_right_iff.mpr (forall₂_same.mpr fun c hc => h.shiftedContainer hedited hapart hc)

end Source

/-! ### Examples -/

/-- The part of a paragraph in a list. -/
def richPart (range : Range) : EditPart := ⟨range, .rich, none, none, none⟩

/-- Two items, the first of which has nothing after its marker, with so many bytes between them. -/
def twoItems (between : ℕ) : BlockStructure where
  root := .list [.mk ⟨0, 2⟩ ⟨0, 2⟩ "•".toList none [.text 0],
    .mk ⟨between + 2, between + 5⟩ ⟨between + 2, between + 4⟩ "•".toList none [.text 1]]
  parts := [richPart ⟨2, 2⟩, richPart ⟨between + 4, between + 5⟩]

theorem containers_twoItems (between : ℕ) : (twoItems between).root.containers = [(⟨0, 2⟩, [0]), (⟨between + 2, between + 5⟩, [1])] := by
  simp [twoItems, StructureNode.containers, itemsContainers, nodesContainers, nodesParts, StructureNode.parts]

theorem markers_twoItems (between : ℕ) : (twoItems between).root.markers = [⟨0, 2⟩, ⟨between + 2, between + 4⟩] := by
  simp [twoItems, StructureNode.markers, itemsMarkers, nodesMarkers]

theorem fits_twoItems {α : Type} (between : ℕ) (source : List α) (hl : source.length = between + 5) : (twoItems between).Fits source := by
  refine ⟨?_, ?_, ?_, ?_, ?_⟩
  · simp [twoItems, richPart, Range.Within, hl]
  · simp [twoItems, richPart]
  · rw [containers_twoItems]
    intro c hc
    rcases mem_cons.mp hc with rfl | hc
    · refine ⟨by simp [Range.Within, hl], fun i p hp => ?_⟩
      match i with
      | 0 => cases hp; simp [richPart]
      | 1 => cases hp; simp [richPart]
      | i + 2 => cases hp
    · obtain rfl := mem_singleton.mp hc
      refine ⟨by simp [Range.Within, hl], fun i p hp => ?_⟩
      match i with
      | 0 => cases hp; simp [richPart]
      | 1 => cases hp; simp [richPart]
      | i + 2 => cases hp
  · rw [containers_twoItems]
    simp
  · rw [markers_twoItems]
    simp [twoItems, richPart, Range.Within, hl]

/-- A line break between the items keeps them apart. -/
theorem replacePart_survives_line : ∃ s', (twoItems 1).replacePart 0 3 = some s' ∧
    Survives (twoItems 1) s' (.range 6) 0 ⟨2, 2⟩ [10, 11, 12] := by
  refine ⟨_, rfl, replacePart_survives (twoItems 1) _ (range 6) 0 (richPart ⟨2, 2⟩) [10, 11, 12] (fits_twoItems 1 _ rfl) rfl ?_ rfl⟩
  intro p hp _ _ c hc hmem
  cases hp
  rw [containers_twoItems] at hc
  rcases mem_cons.mp hc with rfl | hc
  · exact absurd mem_cons_self hmem
  · obtain rfl := mem_singleton.mp hc
    exact ⟨by decide, by decide⟩

/-- Without anything between them the second item gets what is put into the first one. -/
theorem not_survives_touching : ¬ ∀ (s s' : BlockStructure) (source : List ℕ) (part : ℕ) (edited : EditPart) (text : List ℕ), s.Fits source →
    s.parts[part]? = some edited → s.replacePart part text.length = some s' → Survives s s' source part edited.range text := by
  intro h
  obtain ⟨s', hs'⟩ : ∃ s', (twoItems 0).replacePart 0 3 = some s' := ⟨_, rfl⟩
  have hcon := (h (twoItems 0) s' (range 5) 0 (richPart ⟨2, 2⟩) [10, 11, 12] (fits_twoItems 0 _ rfl) rfl hs').containers
  cases hs'
  dsimp only at hcon
  rw [containers_shift, containers_twoItems] at hcon
  cases hcon with
  | cons _ hr =>
    cases hr with
    | cons hsnd _ => exact absurd hsnd (by decide)

end Pebrel.Documents
