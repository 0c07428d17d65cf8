import Spruce.Proofs.Tree.Equality
import Spruce.Proofs.Tree.FieldTypes
import Spruce.Tree.Outline

set_option autoImplicit false

/-!
# Outlines tell trees apart

Outlines are compared part by part, and records by what they have under each name, in whatever
order (`Outline.equal`). Trees whose fields hold what they are declared with are equal if their
outlines are, and only then (`equal_iff_outline`): although the members of the vocabularies are
shown as texts and nodes as tuples, no two of them stand in the same place.

Main definition: `Outline.equal`.
-/

namespace Spruce

/-! ## Equality of outlines -/

/-- The number that an outline is, as a value; nothing if it is none. -/
def Outline.number : Outline → Value
  | .truth b => .truth b
  | .whole n => .whole n
  | .real x => .real x
  | _ => .absent

mutual

/-- Equality of outlines. -/
def Outline.equal : Outline → Outline → Bool
  | .absent, .absent => true
  | .text s, .text s' => s = s'
  | .coloured colour s, .coloured colour' s' => colour = colour' && s = s'
  | .sequence kind items, .sequence kind' items' => kind = kind' && equalOutlines items items'
  | .record fields, .record fields' =>
      fields.length = fields'.length && amongFields fields fields'
  | o, o' => o.number.equalNumber o'.number
termination_by structural o => o

/-- Equality of the outlines of two sequences. -/
def equalOutlines : List Outline → List Outline → Bool
  | [], [] => true
  | o :: os, o' :: os' => o.equal o' && equalOutlines os os'
  | _, _ => false
termination_by structural os => os

/-- Each field is equal to the field of the same name among others. -/
def amongFields : List (String × Outline) → (others : List (String × Outline)) → Bool
  | [], _ => true
  | (name, o) :: fields, others =>
      (match others.lookup name with
        | some o' => o.equal o'
        | none => false) && amongFields fields others
termination_by structural fields => fields

end

/-! ## Leaves -/

theorem Operator.label_injective {o o' : Operator} (h : o.label = o'.label) : o = o' := by
  have hread := o.ofLabel?_label
  rw [h, o'.ofLabel?_label] at hread
  exact (Option.some.inj hread).symm

theorem Operation.label_injective {o o' : Operation} (h : o.label = o'.label) : o = o' := by
  have hread := o.ofLabel?_label
  rw [h, o'.ofLabel?_label] at hread
  exact (Option.some.inj hread).symm

theorem TargetKind.label_injective {k k' : TargetKind} (h : k.label = k'.label) : k = k' := by
  have hread := k.ofLabel?_label
  rw [h, k'.ofLabel?_label] at hread
  exact (Option.some.inj hread).symm

/-- Declared types have different names. -/
theorem NodeType.name_injective : ∀ type ∈ declared, ∀ type' ∈ declared,
    type.name = type'.name → type = type' := by
  decide

theorem NodeType.fieldNames_nodup : ∀ type ∈ declared, type.fieldNames.Nodup := by
  decide

theorem NodeType.length_fieldNames : ∀ type ∈ declared,
    type.fieldNames.length = type.fieldTypes.length := by
  decide

/-! ## Sequences and records -/

/-- Two values are equal if their outlines are, and only then. -/
def OutlinedAlike (v w : Value) : Prop := v.equal w = true ↔ v.outline.equal w.outline = true

theorem length_outlineAll (vs : List Value) : (outlineAll vs).length = vs.length := by
  induction vs with
  | nil => rfl
  | cons v vs ih => rw [outlineAll, List.length_cons, List.length_cons, ih]

theorem equalOutlines_iff {vs ws : List Value} (h : ∀ v ∈ vs, ∀ w ∈ ws, OutlinedAlike v w) :
    equalAll vs ws = true ↔ equalOutlines (outlineAll vs) (outlineAll ws) = true := by
  induction vs generalizing ws with
  | nil => cases ws <;> exact Iff.rfl
  | cons v vs ih =>
      cases ws with
      | nil => exact Iff.rfl
      | cons w ws =>
          have hfirst := h v List.mem_cons_self w List.mem_cons_self
          have hlater := ih fun v' hv' w' hw' =>
            h v' (List.mem_cons_of_mem v hv') w' (List.mem_cons_of_mem w hw')
          rw [equalAll, outlineAll, outlineAll, equalOutlines, Bool.and_eq_true, Bool.and_eq_true,
            hlater]
          exact and_congr_left' hfirst

/-- Fields under the same names are equal name by name if they are one by one. The fields `before`
are those that have been passed. -/
theorem amongFields_iff {names : List String} {vs ws : List Value}
    (h : List.Forall₂ OutlinedAlike vs ws) (hlength : names.length = vs.length)
    (hnodup : names.Nodup) (before : List (String × Outline))
    (hbefore : ∀ name ∈ names, before.lookup name = none) :
    equalAll vs ws = true ↔ amongFields (names.zip (outlineAll vs))
      (before ++ names.zip (outlineAll ws)) = true := by
  induction h generalizing names before with
  | nil =>
      obtain rfl := List.length_eq_zero_iff.1 hlength
      exact Iff.rfl
  | @cons v w vs ws hfirst _ ih =>
      obtain ⟨name, names, rfl⟩ := List.exists_cons_of_length_eq_add_one hlength
      obtain ⟨hname, hnames⟩ := List.nodup_cons.1 hnodup
      obtain ⟨hnone, hbefore'⟩ := List.forall_mem_cons.1 hbefore
      have hlookup : (before ++ (name, w.outline) :: names.zip (outlineAll ws)).lookup name =
          some w.outline := by
        rw [List.lookup_append, hnone, List.lookup_cons_self]
        rfl
      have hpassed : ∀ other ∈ names, (before ++ [(name, w.outline)]).lookup other = none := by
        intro other hother
        have hne : other ≠ name := fun heq => hname (heq ▸ hother)
        rw [List.lookup_append, hbefore' other hother, List.lookup_cons, beq_false_of_ne hne]
        rfl
      have hlater := ih (Nat.succ.inj hlength) hnames (before ++ [(name, w.outline)]) hpassed
      rw [List.append_assoc, List.singleton_append] at hlater
      rw [equalAll, outlineAll, outlineAll, List.zip_cons_cons, List.zip_cons_cons, amongFields,
        hlookup, Bool.and_eq_true, Bool.and_eq_true, hlater]
      exact and_congr_left' hfirst

/-! ## Nodes -/

theorem name_eq_of_outlineFields_equal {name name' : String}
    {fields fields' : List (String × Outline)}
    (h : (outlineFields name fields).equal (outlineFields name' fields') = true) :
    name = name' := by
  cases fields <;> cases fields' <;>
    simp [outlineFields, Outline.equal, equalOutlines, Outline.number, Value.equalNumber,
      Value.wholeNumber?] at h
  · exact h
  · exact h.1

theorem outlineFields_equal {name : String} {fields fields' : List (String × Outline)}
    (h : fields.length = fields'.length) :
    (outlineFields name fields).equal (outlineFields name fields') =
      amongFields fields fields' := by
  cases fields with
  | nil =>
      obtain rfl := List.length_eq_zero_iff.1 h.symm
      simp [outlineFields, Outline.equal, amongFields]
  | cons f fields =>
      obtain ⟨f', fields', rfl⟩ := List.exists_cons_of_length_eq_add_one h.symm
      have hlength : fields.length = fields'.length := Nat.succ.inj h
      simp [outlineFields, Outline.equal, equalOutlines, hlength]

theorem outlinedAlike_node {type type' : NodeType} {span span' : Option Span} {vs ws : List Value}
    (htype : type ∈ NodeType.declared) (htype' : type' ∈ NodeType.declared)
    (hvs : vs.length = type.fieldTypes.length) (hws : ws.length = type'.fieldTypes.length)
    (h : type = type' → List.Forall₂ OutlinedAlike vs ws) :
    OutlinedAlike (.node ⟨type, span, vs⟩) (.node ⟨type', span', ws⟩) := by
  by_cases hsame : type = type'
  · subst hsame
    have hlength : (type.fieldNames.zip (outlineAll vs)).length =
        (type.fieldNames.zip (outlineAll ws)).length := by
      rw [List.length_zip, List.length_zip, length_outlineAll, length_outlineAll, hvs, hws]
    have hfields := amongFields_iff (h rfl) ((NodeType.length_fieldNames type htype).trans hvs.symm)
      (NodeType.fieldNames_nodup type htype) [] fun _ _ => rfl
    rw [List.nil_append] at hfields
    rw [OutlinedAlike, Value.equal, Node.equal, Value.outline, Value.outline, Node.outline,
      Node.outline, outlineFields_equal hlength, ← hfields, decide_eq_true rfl, Bool.true_and]
  · -- the type names alone tell the nodes apart
    have hequal : Node.equal ⟨type, span, vs⟩ ⟨type', span', ws⟩ = false := by
      rw [Node.equal, decide_eq_false hsame, Bool.false_and]
    refine ⟨fun hv => absurd (hequal.symm.trans hv) Bool.false_ne_true, fun ho => ?_⟩
    rw [Value.outline, Value.outline, Node.outline, Node.outline] at ho
    exact absurd (NodeType.name_injective type htype type' htype'
      (name_eq_of_outlineFields_equal ho)) hsame

/-- What is absent is equal to nothing else, and is not outlined as anything else is. -/
theorem HasType.ne_absent {t : FieldType} {v : Value} (h : HasType t v) (hne : v ≠ .absent) :
    OutlinedAlike .absent v ∧ OutlinedAlike v .absent := by
  induction h with
  | absent => exact absurd rfl hne
  | present _ ih => exact ih hne
  | @node type span fields =>
      have houtline : Outline.absent.equal (Value.node ⟨type, span, fields⟩).outline = false ∧
          (Value.node ⟨type, span, fields⟩).outline.equal .absent = false := by
        rw [Value.outline, Node.outline]
        cases type.fieldNames.zip (outlineAll fields) <;> exact ⟨rfl, rfl⟩
      rw [OutlinedAlike, OutlinedAlike, Value.outline, houtline.1, houtline.2]
      exact ⟨Iff.rfl, Iff.rfl⟩
  | _ => exact ⟨Iff.rfl, Iff.rfl⟩

theorem isComponentwise_outlinedAlike : IsComponentwise OutlinedAlike where
  text s s' := by
    simp [OutlinedAlike, Value.equal, Value.outline, Outline.equal]
  operator o o' := by
    simpa [OutlinedAlike, Value.equal, Value.outline, Outline.equal] using
      ⟨congrArg Operator.label, Operator.label_injective⟩
  operation o o' := by
    simpa [OutlinedAlike, Value.equal, Value.outline, Outline.equal] using
      ⟨congrArg Operation.label, Operation.label_injective⟩
  targetKind k k' := by
    simpa [OutlinedAlike, Value.equal, Value.outline, Outline.equal] using
      ⟨congrArg TargetKind.label, TargetKind.label_injective⟩
  absent := Iff.rfl
  absent_left h hne := (h.ne_absent hne).1
  absent_right h hne := (h.ne_absent hne).2
  tuple _ _ h := by
    have hitems := equalOutlines_iff h
    simpa [OutlinedAlike, Value.tuple, Value.equal, Value.outline, Outline.equal] using hitems
  node htype htype' hvs hws h := outlinedAlike_node htype htype' hvs hws h

/-- Trees whose fields hold what they are declared with are equal if their outlines are, and only
then. -/
theorem equal_iff_outline {n m : Node} (hn : n.HasFieldTypes) (hm : m.HasFieldTypes) :
    n.equal m = true ↔ n.outline.equal m.outline = true :=
  hn.related isComponentwise_outlinedAlike hm

end Spruce
