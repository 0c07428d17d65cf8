import Spruce.Tree.Equality

set_option autoImplicit false

/-!
# Names in trees

The names in a tree have an order, that of its fields from left to right (`Node.mentions`), so that
one of them can be changed by its number (`Node.rename`). A tree is known, up to equality, by its
names and by what is left of it without names and spans (`equal_of_mentions`).

A tree can be mapped, with a function for its spans and one for its names (`TreeMap`); taking both
away is such a map (`TreeMap.erased`), and so is moving the spans of a tree.

Main definitions: `Node.mentions`, `Node.rename`, `TreeMap` and `Node.map`.
-/

namespace Spruce

/-! ## The names in a tree -/

mutual

/-- The names in a tree, from left to right. The pieces of a number are no names. -/
def Node.mentions : Node → List String
  | ⟨type, _, fields⟩ => if type = .number then [] else mentionsAll fields
termination_by structural n => n

/-- The names in a value. -/
def Value.mentions : Value → List String
  | .text s => [s]
  | .sequence _ items => mentionsAll items
  | .node n => n.mentions
  | _ => []
termination_by structural v => v

/-- The names in some values, one after another. -/
def mentionsAll : List Value → List String
  | [] => []
  | v :: vs => v.mentions ++ mentionsAll vs
termination_by structural vs => vs

end

theorem mentionsAll_eq (vs : List Value) : mentionsAll vs = vs.flatMap Value.mentions := by
  induction vs with
  | nil => rfl
  | cons v vs ih => rw [mentionsAll, ih, List.flatMap_cons]

@[simp] theorem mentions_text (s : String) : (Value.text s).mentions = [s] := rfl

@[simp] theorem mentions_node (n : Node) : (Value.node n).mentions = n.mentions := rfl

@[simp] theorem mentions_nodes (ns : List Node) :
    (Value.nodes ns).mentions = ns.flatMap Node.mentions := by
  show mentionsAll (ns.map .node) = _
  rw [mentionsAll_eq, List.flatMap_map]
  rfl

@[simp] theorem mentions_names (ss : List String) : (Value.names ss).mentions = ss := by
  show mentionsAll (ss.map .text) = _
  rw [mentionsAll_eq, List.flatMap_map]
  exact List.flatMap_singleton' ss

@[simp] theorem mentions_operators (os : List Operator) : (Value.operators os).mentions = [] := by
  show mentionsAll (os.map .operator) = _
  rw [mentionsAll_eq, List.flatMap_map]
  exact List.flatMap_eq_nil_iff.2 fun _ _ => rfl

@[simp] theorem mentions_optionalNode (n : Option Node) :
    (Value.optionalNode n).mentions = n.toList.flatMap Node.mentions := by
  cases n with
  | none => rfl
  | some n => exact (List.append_nil _).symm

/-- The names in a node that is no number are those in its fields. -/
theorem Node.mentions_of_type {type : NodeType} (h : type ≠ .number) (span : Option Span)
    (fields : List Value) :
    (⟨type, span, fields⟩ : Node).mentions = fields.flatMap Value.mentions := by
  rw [Node.mentions, if_neg h, mentionsAll_eq]

/-! ## Changing one name -/

mutual

/-- A tree with another name in the place of its `i`-th, counted from zero. -/
def Node.rename : Node → (i : Nat) → (name : String) → Node
  | ⟨type, span, fields⟩, i, name =>
      if type = .number then ⟨type, span, fields⟩ else ⟨type, span, renameAll fields i name⟩
termination_by structural n => n

/-- A value with another name in the place of its `i`-th. -/
def Value.rename : Value → (i : Nat) → (name : String) → Value
  | .text s, i, name => .text (if i = 0 then name else s)
  | .sequence kind items, i, name => .sequence kind (renameAll items i name)
  | .node n, i, name => .node (n.rename i name)
  | v, _, _ => v
termination_by structural v => v

/-- Some values with another name in the place of their `i`-th. -/
def renameAll : List Value → (i : Nat) → (name : String) → List Value
  | [], _, _ => []
  | v :: vs, i, name =>
      if i < v.mentions.length then v.rename i name :: vs
      else v :: renameAll vs (i - v.mentions.length) name
termination_by structural vs => vs

end

mutual

/-- Renaming changes one of the names of a tree. -/
theorem Node.mentions_rename : (n : Node) → (i : Nat) → (name : String) →
    (n.rename i name).mentions = n.mentions.set i name
  | ⟨type, span, fields⟩, i, name => by
      rw [Node.rename, Node.mentions]
      split
      · next h => rw [Node.mentions, if_pos h, List.set_nil]
      · next h => rw [Node.mentions, if_neg h, mentionsAll_renameAll]
termination_by structural n => n

theorem Value.mentions_rename : (v : Value) → (i : Nat) → (name : String) →
    (v.rename i name).mentions = v.mentions.set i name
  | .text s, i, name => by
      cases i with
      | zero => rfl
      | succ i => rfl
  | .sequence kind items, i, name => mentionsAll_renameAll items i name
  | .node n, i, name => n.mentions_rename i name
  | .absent, _, _ | .truth _, _, _ | .whole _, _, _ | .real _, _, _ | .operator _, _, _
  | .operation _, _, _ | .targetKind _, _, _ | .fragment _ _, _, _ => rfl
termination_by structural v => v

theorem mentionsAll_renameAll : (vs : List Value) → (i : Nat) → (name : String) →
    mentionsAll (renameAll vs i name) = (mentionsAll vs).set i name
  | [], _, _ => rfl
  | v :: vs, i, name => by
      rw [renameAll, mentionsAll, List.set_append]
      split
      · rw [mentionsAll, v.mentions_rename]
      · rw [mentionsAll, mentionsAll_renameAll]
termination_by structural vs => vs

end

/-! ## Maps of trees -/

/-- A function for the spans and one for the names in a tree. -/
structure TreeMap where
  span : Option Span → Option Span
  name : String → String

mutual

/-- A tree with its spans and names mapped. -/
def Node.map (φ : TreeMap) : Node → Node
  | ⟨type, span, fields⟩ =>
      ⟨type, φ.span span, if type = .number then fields else mapAll φ fields⟩
termination_by structural n => n

/-- A value with its spans and names mapped. -/
def Value.map (φ : TreeMap) : Value → Value
  | .text s => .text (φ.name s)
  | .sequence kind items => .sequence kind (mapAll φ items)
  | .node n => .node (n.map φ)
  | v => v
termination_by structural v => v

/-- Some values with their spans and names mapped. -/
def mapAll (φ : TreeMap) : List Value → List Value
  | [] => []
  | v :: vs => v.map φ :: mapAll φ vs
termination_by structural vs => vs

end

section

variable (φ : TreeMap)

theorem mapAll_eq (vs : List Value) : mapAll φ vs = vs.map (Value.map φ) := by
  induction vs with
  | nil => rfl
  | cons v vs ih => rw [mapAll, ih, List.map_cons]

@[simp] theorem map_nodes (ns : List Node) :
    (Value.nodes ns).map φ = .nodes (ns.map (Node.map φ)) := by
  show Value.tuple (mapAll φ (ns.map .node)) = _
  rw [mapAll_eq, List.map_map, Value.nodes, List.map_map]
  rfl

@[simp] theorem map_names (ss : List String) :
    (Value.names ss).map φ = .names (ss.map φ.name) := by
  show Value.tuple (mapAll φ (ss.map .text)) = _
  rw [mapAll_eq, List.map_map, Value.names, List.map_map]
  rfl

@[simp] theorem map_operators (os : List Operator) :
    (Value.operators os).map φ = .operators os := by
  show Value.tuple (mapAll φ (os.map .operator)) = _
  rw [mapAll_eq, List.map_map]
  rfl

@[simp] theorem map_optionalNode (n : Option Node) :
    (Value.optionalNode n).map φ = .optionalNode (n.map (Node.map φ)) := by
  cases n <;> rfl

/-- The fields of a node that is no number are mapped. -/
theorem Node.map_of_type {type : NodeType} (h : type ≠ .number) (span : Option Span)
    (fields : List Value) :
    (⟨type, span, fields⟩ : Node).map φ = ⟨type, φ.span span, fields.map (Value.map φ)⟩ := by
  rw [Node.map, if_neg h, mapAll_eq]

mutual

/-- The names in a mapped tree are the names in the tree, mapped. -/
theorem Node.mentions_map : (n : Node) → (n.map φ).mentions = n.mentions.map φ.name
  | ⟨type, span, fields⟩ => by
      rw [Node.map, Node.mentions, Node.mentions]
      split
      · rfl
      · exact mentionsAll_mapAll fields
termination_by structural n => n

theorem Value.mentions_map : (v : Value) → (v.map φ).mentions = v.mentions.map φ.name
  | .text _ => rfl
  | .sequence _ items => mentionsAll_mapAll items
  | .node n => n.mentions_map
  | .absent | .truth _ | .whole _ | .real _ | .operator _ | .operation _ | .targetKind _
  | .fragment _ _ => rfl
termination_by structural v => v

theorem mentionsAll_mapAll : (vs : List Value) →
    mentionsAll (mapAll φ vs) = (mentionsAll vs).map φ.name
  | [] => rfl
  | v :: vs => by
      rw [mapAll, mentionsAll, mentionsAll, List.map_append, v.mentions_map, mentionsAll_mapAll]
termination_by structural vs => vs

end

end

mutual

/-- A tree is left as it is by functions that change nothing. -/
theorem Node.map_id : (n : Node) → n.map ⟨id, id⟩ = n
  | ⟨type, span, fields⟩ => by
      rw [Node.map, mapAll_id, ite_self]
      rfl
termination_by structural n => n

theorem Value.map_id : (v : Value) → v.map ⟨id, id⟩ = v
  | .text _ => rfl
  | .sequence kind items => congrArg (Value.sequence kind) (mapAll_id items)
  | .node n => congrArg Value.node n.map_id
  | .absent | .truth _ | .whole _ | .real _ | .operator _ | .operation _ | .targetKind _
  | .fragment _ _ => rfl
termination_by structural v => v

theorem mapAll_id : (vs : List Value) → mapAll ⟨id, id⟩ vs = vs
  | [] => rfl
  | v :: vs => by rw [mapAll, v.map_id, mapAll_id vs]
termination_by structural vs => vs

end

/-! ## Trees without names and spans -/

/-- The map that leaves neither spans nor names. -/
def TreeMap.erased : TreeMap := ⟨fun _ => none, fun _ => ""⟩

mutual

/-- Renaming changes nothing but names. -/
theorem Node.map_rename : (n : Node) → (i : Nat) → (name : String) →
    (n.rename i name).map .erased = n.map .erased
  | ⟨type, span, fields⟩, i, name => by
      rw [Node.rename]
      split
      · rfl
      · next h => rw [Node.map, Node.map, if_neg h, if_neg h, mapAll_renameAll]
termination_by structural n => n

theorem Value.map_rename : (v : Value) → (i : Nat) → (name : String) →
    (v.rename i name).map .erased = v.map .erased
  | .text _, _, _ => rfl
  | .sequence kind items, i, name =>
      congrArg (Value.sequence kind) (mapAll_renameAll items i name)
  | .node n, i, name => congrArg Value.node (n.map_rename i name)
  | .absent, _, _ | .truth _, _, _ | .whole _, _, _ | .real _, _, _ | .operator _, _, _
  | .operation _, _, _ | .targetKind _, _, _ | .fragment _ _, _, _ => rfl
termination_by structural v => v

theorem mapAll_renameAll : (vs : List Value) → (i : Nat) → (name : String) →
    mapAll .erased (renameAll vs i name) = mapAll .erased vs
  | [], _, _ => rfl
  | v :: vs, i, name => by
      rw [renameAll]
      split
      · exact congrArg (· :: mapAll .erased vs) (v.map_rename i name)
      · exact congrArg (v.map .erased :: ·) (mapAll_renameAll vs _ name)
termination_by structural vs => vs

end

theorem mentions_length_eq {v w : Value} (h : v.map .erased = w.map .erased) :
    v.mentions.length = w.mentions.length := by
  have hlength := congrArg (fun v => v.mentions.length) h
  simpa only [Value.mentions_map, List.length_map] using hlength

mutual

/-- Trees with the same names that are the same but for names and spans are equal, if trees like
the first are equal to themselves at all. -/
theorem Node.equal_of_mentions : (n m : Node) → n.equal n = true →
    n.map .erased = m.map .erased → n.mentions = m.mentions → n.equal m = true
  | ⟨type, span, fields⟩, ⟨type', span', fields'⟩, hself, hmap, hmentions => by
      rw [Node.equal, Bool.and_eq_true] at hself
      obtain ⟨rfl, hspan, hfields⟩ := Node.mk.inj hmap
      rw [Node.equal, Bool.and_eq_true]
      refine ⟨decide_eq_true rfl, ?_⟩
      by_cases hnumber : type = .number
      · rw [if_pos hnumber, if_pos hnumber] at hfields
        exact hfields ▸ hself.2
      · rw [if_neg hnumber, if_neg hnumber] at hfields
        rw [Node.mentions, Node.mentions, if_neg hnumber, if_neg hnumber] at hmentions
        exact equalAll_of_mentions fields fields' hself.2 hfields hmentions
termination_by structural n => n

theorem Value.equal_of_mentions : (v w : Value) → v.equal v = true →
    v.map .erased = w.map .erased → v.mentions = w.mentions → v.equal w = true
  | .text s, w, _, hmap, hmentions => by
      cases w with
      | text t =>
          obtain rfl : s = t := List.singleton_inj.1 hmentions
          exact decide_eq_true rfl
      | _ => exact Value.noConfusion hmap
  | .sequence kind items, w, hself, hmap, hmentions => by
      cases w with
      | sequence kind' items' =>
          obtain ⟨rfl, hitems⟩ := Value.sequence.inj hmap
          rw [Value.equal, Bool.and_eq_true] at hself
          rw [Value.equal, Bool.and_eq_true]
          exact ⟨hself.1, equalAll_of_mentions items items' hself.2 hitems hmentions⟩
      | _ => exact Value.noConfusion hmap
  | .node n, w, hself, hmap, hmentions => by
      cases w with
      | node m => exact n.equal_of_mentions m hself (Value.node.inj hmap) hmentions
      | _ => exact Value.noConfusion hmap
  | .absent, w, hself, hmap, _ | .truth _, w, hself, hmap, _ | .whole _, w, hself, hmap, _
  | .real _, w, hself, hmap, _ | .operator _, w, hself, hmap, _ | .operation _, w, hself, hmap, _
  | .targetKind _, w, hself, hmap, _ | .fragment _ _, w, hself, hmap, _ => by
      -- nothing was erased from such a value, so that the other is the same
      cases w <;>
        first
        | exact Value.noConfusion hmap
        | cases hmap; exact hself
termination_by structural v => v

theorem equalAll_of_mentions : (vs ws : List Value) → equalAll vs vs = true →
    mapAll .erased vs = mapAll .erased ws → mentionsAll vs = mentionsAll ws →
      equalAll vs ws = true
  | [], ws, _, hmap, _ => by
      cases ws with
      | nil => rfl
      | cons w ws => exact absurd hmap (List.cons_ne_nil _ _).symm
  | v :: vs, ws, hself, hmap, hmentions => by
      cases ws with
      | nil => exact absurd hmap (List.cons_ne_nil _ _)
      | cons w ws =>
          obtain ⟨hmap, hmaps⟩ := List.cons.inj hmap
          obtain ⟨hmentions, hmentionsAll⟩ :=
            List.append_inj hmentions (mentions_length_eq hmap)
          rw [equalAll, Bool.and_eq_true] at hself
          rw [equalAll, Bool.and_eq_true]
          exact ⟨v.equal_of_mentions w hself.1 hmap hmentions,
            equalAll_of_mentions vs ws hself.2 hmaps hmentionsAll⟩
termination_by structural vs => vs

end

end Spruce
