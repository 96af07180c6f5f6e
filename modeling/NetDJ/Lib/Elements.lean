import Mathlib.Data.List.Nodup

/-!
# Trees of elements

An element has a name, attributes and children, which are texts and elements. Whoever reads a tree
finds a child by its name.

* `Node.child`, `Node.named`, `Node.content` : the children by their name, and the text of an
  element;
* `Node.fields` : fields that are written only if they have a value;
* `childText_fields` : each field is read back, if no two have one name.
-/

namespace Elements

inductive Node where
  | text (s : List Char)
  | element (name : List Char) (attributes : List (List Char × List Char)) (children : List Node)

namespace Node

def children : Node → List Node
  | text _ => []
  | element _ _ children => children

def attr (n : Node) (name : List Char) : Option (List Char) :=
  match n with
  | text _ => none
  | element _ attributes _ => attributes.lookup name

def isNamed (name : List Char) : Node → Bool
  | text _ => false
  | element name' _ _ => name' = name

/-- The text in an element, without what is in its children. -/
def content (n : Node) : List Char :=
  n.children.flatMap fun
    | text s => s
    | element _ _ _ => []

def named (n : Node) (name : List Char) : List Node := n.children.filter (isNamed name)

def child (n : Node) (name : List Char) : Option Node := n.children.find? (isNamed name)

/-- The text of a child, if there is one. -/
def childText (n : Node) (name : List Char) : List Char := (n.child name).elim [] content

/-- An element that holds a text. -/
def leaf (name s : List Char) : Node := element name [] [text s]

@[simp] theorem content_leaf (name s : List Char) : (leaf name s).content = s :=
  List.append_nil s

theorem isNamed_leaf {name name' s : List Char} : (leaf name s).isNamed name' = true ↔ name = name' :=
  decide_eq_true_iff

/-- The elements of fields that have a value. -/
def fields (fs : List (List Char × Option (List Char))) : List Node :=
  fs.filterMap fun f => f.2.map (leaf f.1)

theorem find?_fields_of_notMem {fs : List (List Char × Option (List Char))} {name : List Char}
    (h : name ∉ fs.map Prod.fst) : (fields fs).find? (isNamed name) = none := by
  rw [List.find?_eq_none]
  intro n hn hname
  obtain ⟨f, hf, hleaf⟩ := List.mem_filterMap.mp hn
  obtain ⟨s, -, rfl⟩ := Option.map_eq_some_iff.mp hleaf
  rw [isNamed_leaf] at hname
  exact h (hname ▸ List.mem_map_of_mem hf)

theorem find?_fields {fs : List (List Char × Option (List Char))} (hnodup : (fs.map Prod.fst).Nodup)
    {f : List Char × Option (List Char)} (hf : f ∈ fs) :
    (fields fs).find? (isNamed f.1) = f.2.map (leaf f.1) := by
  induction fs with
  | nil => exact absurd hf List.not_mem_nil
  | cons g fs ih =>
    rw [List.map_cons, List.nodup_cons] at hnodup
    have hcons : fields (g :: fs) = (g.2.map (leaf g.1)).toList ++ fields fs := by
      unfold fields
      rw [List.filterMap_cons]
      cases g.2 <;> rfl
    rw [hcons, List.find?_append]
    rcases List.mem_cons.mp hf with rfl | hf
    · rw [find?_fields_of_notMem hnodup.1, Option.or_none]
      cases hv : f.2 with
      | none => rfl
      | some s => exact List.find?_cons_of_pos (isNamed_leaf.mpr rfl)
    · have hne : g.1 ≠ f.1 := fun h => hnodup.1 (h ▸ List.mem_map_of_mem hf)
      have hfirst : (g.2.map (leaf g.1)).toList.find? (isNamed f.1) = none := by
        cases hv : g.2 with
        | none => rfl
        | some s => exact List.find?_cons_of_neg fun h => hne (isNamed_leaf.mp h)
      rw [hfirst, Option.none_or, ih hnodup.2 hf]

/-- The text of a field is read back, and an empty one for a field without a value. -/
theorem childText_fields {fs : List (List Char × Option (List Char))}
    (hnodup : (fs.map Prod.fst).Nodup) {f : List Char × Option (List Char)} (hf : f ∈ fs)
    (name : List Char) (attributes : List (List Char × List Char)) :
    (element name attributes (fields fs)).childText f.1 = f.2.getD [] := by
  unfold childText child children
  rw [find?_fields hnodup hf]
  cases f.2 with
  | none => rfl
  | some s => exact content_leaf f.1 s

end Node

end Elements
