import Spruce.Proofs.Text.Quoted
import Spruce.Proofs.Tree.OutlineEquality
import Spruce.Tree.Description

set_option autoImplicit false

/-!
# Descriptions tell trees apart

The description of a value that a field may hold ends where it seems to end: if two such
descriptions stand at the beginning of one text, the values are equal and what comes after the
descriptions is the same (`DescribedAlike.apart`). Texts need their quotes and escapes for that,
tuples their commas and parentheses, and nodes the names of their types. Trees whose fields hold
what they are declared with are therefore equal if their descriptions are, and only then.

Main definition: `DescribedAlike`.
-/

namespace Spruce

/-- Two values that have the same description if they are equal, and of which neither description
can go on as the other unless they are. -/
structure DescribedAlike (v w : Value) : Prop where
  same : v.equal w = true → v.describe = w.describe
  apart : ∀ r s, v.describe ++ r = w.describe ++ s → v.equal w = true ∧ r = s

/-! ## Leaves -/

theorem describedAlike_text (s s' : String) : DescribedAlike (.text s) (.text s') := by
  refine ⟨fun h => ?_, fun r r' h => ?_⟩
  · obtain rfl : s = s' := by simpa [Value.equal] using h
    rfl
  · obtain ⟨hchars, hrest⟩ := quotedChars_append_inj h
    exact ⟨decide_eq_true (String.toList_inj.1 hchars), hrest⟩

theorem memberName_inj {vocabulary label label' : String}
    (h : memberName vocabulary label = memberName vocabulary label') : label = label' :=
  String.toList_inj.1 (List.cons.inj (List.append_cancel_left h)).2

/-- A member of a vocabulary is told by its name, which ends at the colon. -/
theorem name_eq_of_describeMember {name name' identity identity' r s : Text} (hname : ':' ∉ name)
    (hname' : ':' ∉ name')
    (h : describeMember name identity ++ r = describeMember name' identity' ++ s) :
    name = name' := by
  simp only [describeMember, List.cons_append, List.append_assoc] at h
  exact (append_mark_inj hname hname' (List.cons.inj h).2).1

/-- Members of the vocabularies whose names tell them apart. -/
theorem DescribedAlike.of_members {v w : Value} {name name' identity identity' : Text}
    (hv : v.describe = describeMember name identity)
    (hw : w.describe = describeMember name' identity') (hname : ':' ∉ name) (hname' : ':' ∉ name')
    (hself : v.equal v = true) (hexact : v.equal w = true → v = w) (hinj : name = name' → v = w) :
    DescribedAlike v w := by
  refine ⟨fun h => congrArg Value.describe (hexact h), fun r s h => ?_⟩
  have hsame := h
  rw [hv, hw] at hsame
  obtain rfl := hinj (name_eq_of_describeMember hname hname' hsame)
  exact ⟨hself, List.append_cancel_left h⟩

theorem describedAlike_operator (o o' : Operator) :
    DescribedAlike (.operator o) (.operator o') := by
  have hname : ∀ o : Operator, ':' ∉ o.fullName := fun o => by cases o <;> decide
  refine .of_members rfl rfl (hname o) (hname o') (Value.equal_operator o)
    (fun h => (Value.isExact_operator o _ h).symm) fun h => ?_
  exact congrArg Value.operator (Operator.label_injective (memberName_inj h))

theorem describedAlike_targetKind (k k' : TargetKind) :
    DescribedAlike (.targetKind k) (.targetKind k') := by
  have hname : ∀ k : TargetKind, ':' ∉ k.fullName := fun k => by cases k <;> decide
  refine .of_members rfl rfl (hname k) (hname k') (Value.equal_targetKind k)
    (fun h => (Value.isExact_targetKind k _ h).symm) fun h => ?_
  exact congrArg Value.targetKind (TargetKind.label_injective (memberName_inj h))

theorem describedAlike_operation (o o' : Operation) :
    DescribedAlike (.operation o) (.operation o') := by
  have hname : ∀ o : Operation, ':' ∉ o.fullName := fun o => by cases o <;> decide
  refine .of_members rfl rfl (hname o) (hname o') (decide_eq_true rfl)
    (fun h => congrArg Value.operation (of_decide_eq_true h)) fun h => ?_
  exact congrArg Value.operation (Operation.label_injective (memberName_inj h))

/-! ## Beginnings -/

/-- Names of declared types have no parenthesis. -/
theorem NodeType.leftParen_not_mem_name : ∀ type ∈ declared, '(' ∉ type.name.toList := by
  decide

/-- They do not begin as what stands for a value that is absent. -/
theorem NodeType.take_name : ∀ type ∈ declared, 2 ≤ type.name.toList.length ∧
    type.name.toList.take 2 ≠ ['N', 'o'] ∧ ')' ∉ type.name.toList := by
  decide

theorem describe_node (type : NodeType) (span : Option Span) (fields : List Value) :
    (Value.node ⟨type, span, fields⟩).describe =
      describeFields type.name (type.fieldNames.zip (describeAll fields)) := rfl

theorem describe_tuple (vs : List Value) :
    (Value.tuple vs).describe = describeTuple (describeAll vs) := rfl

/-- What stands for a value does not begin with a closing parenthesis, and only what stands for one
that is absent begins as that does. -/
theorem HasType.describe_begins {t : FieldType} {v : Value} (h : HasType t v) :
    (∀ r s, v.describe ++ r ≠ ')' :: s) ∧
      (v ≠ .absent → ∀ r s, v.describe ++ r ≠ describeAbsent ++ s) := by
  induction h with
  | absent => exact ⟨fun r s h => absurd (List.cons.inj h).1 (by decide), fun h => absurd rfl h⟩
  | present _ ih => exact ih
  | text s =>
      have hquote : quoteFor s.toList ≠ ')' ∧ quoteFor s.toList ≠ 'N' := by
        rcases isQuote_quoteFor s.toList with h | h <;> rw [h] <;> decide
      exact ⟨fun r s h => hquote.1 (List.cons.inj h).1, fun _ r s h => hquote.2 (List.cons.inj h).1⟩
  | operator o | operation o | targetKind k =>
      exact ⟨fun r s h => absurd (List.cons.inj h).1 (by decide),
        fun _ r s h => absurd (List.cons.inj h).1 (by decide)⟩
  | @tuple t vs =>
      have hfirst : ∃ cs, (Value.tuple vs).describe = '(' :: cs := by
        rw [describe_tuple]
        rcases describeAll vs with _ | ⟨_, _ | ⟨_, _⟩⟩ <;> exact ⟨_, rfl⟩
      obtain ⟨cs, hcs⟩ := hfirst
      rw [hcs]
      exact ⟨fun r s h => absurd (List.cons.inj h).1 (by decide),
        fun _ r s h => absurd (List.cons.inj h).1 (by decide)⟩
  | @node type span fields htype =>
      obtain ⟨hlength, htwo, hparen⟩ := NodeType.take_name type htype
      rw [describe_node, describeFields]
      rcases hname : type.name.toList with _ | ⟨c, _ | ⟨d, cs⟩⟩
      · rw [hname] at hlength
        exact absurd hlength (by simp)
      · rw [hname] at hlength
        exact absurd hlength (by simp)
      · rw [hname] at htwo hparen
        refine ⟨fun r s h => hparen (List.mem_cons.2 (.inl (List.cons.inj h).1.symm)),
          fun _ r s h => htwo ?_⟩
        obtain ⟨rfl, hlater⟩ := List.cons.inj h
        obtain ⟨rfl, -⟩ := List.cons.inj hlater
        rfl

/-! ## Tuples -/

/-- What follows the first element of a tuple. -/
def tupleEnd : List Text → Text
  | [] => [',', ')']
  | items => items.flatMap ([',', ' '] ++ ·) ++ [')']

theorem describeTuple_cons (item : Text) (items : List Text) :
    describeTuple (item :: items) = '(' :: (item ++ tupleEnd items) := by
  cases items with
  | nil => simp [describeTuple, tupleEnd]
  | cons next items =>
      show '(' :: commaSeparated (item :: next :: items) ++ [')'] = _
      rw [commaSeparated_cons, List.cons_append, List.append_assoc]
      rfl

/-- Elements after the first, up to the closing parenthesis. -/
theorem items_apart {vs ws : List Value} (h : ∀ v ∈ vs, ∀ w ∈ ws, DescribedAlike v w) {r s : Text}
    (htext : (describeAll vs).flatMap ([',', ' '] ++ ·) ++ ')' :: r =
      (describeAll ws).flatMap ([',', ' '] ++ ·) ++ ')' :: s) :
    equalAll vs ws = true ∧ r = s := by
  induction vs generalizing ws with
  | nil =>
      cases ws with
      | nil => exact ⟨rfl, (List.cons.inj htext).2⟩
      | cons w ws => exact absurd (List.cons.inj htext).1 (by decide)
  | cons v vs ih =>
      cases ws with
      | nil => exact absurd (List.cons.inj htext).1 (by decide)
      | cons w ws =>
          rw [describeAll, describeAll, List.flatMap_cons, List.flatMap_cons] at htext
          simp only [List.append_assoc] at htext
          have hfirst := h v List.mem_cons_self w List.mem_cons_self
          obtain ⟨hequal, hlater⟩ := hfirst.apart _ _ (List.append_cancel_left htext)
          obtain ⟨hall, hrest⟩ := ih (fun v' hv' w' hw' =>
            h v' (List.mem_cons_of_mem v hv') w' (List.mem_cons_of_mem w hw')) hlater
          exact ⟨Bool.and_eq_true_iff.2 ⟨hequal, hall⟩, hrest⟩

theorem tupleEnd_apart {vs ws : List Value} (h : ∀ v ∈ vs, ∀ w ∈ ws, DescribedAlike v w)
    {r s : Text} (htext : tupleEnd (describeAll vs) ++ r = tupleEnd (describeAll ws) ++ s) :
    equalAll vs ws = true ∧ r = s := by
  cases vs with
  | nil =>
      cases ws with
      | nil => exact ⟨rfl, List.append_cancel_left htext⟩
      | cons w ws => exact absurd (List.cons.inj (List.cons.inj htext).2).1 (by decide)
  | cons v vs =>
      cases ws with
      | nil => exact absurd (List.cons.inj (List.cons.inj htext).2).1 (by decide)
      | cons w ws =>
          rw [describeAll, describeAll, tupleEnd, tupleEnd, List.append_assoc,
            List.append_assoc] at htext
          · exact items_apart h htext
          · exact List.cons_ne_nil _ _
          · exact List.cons_ne_nil _ _

/-- Values that are equal one by one are described alike. -/
theorem describeAll_eq {vs ws : List Value} (h : List.Forall₂ DescribedAlike vs ws)
    (hequal : equalAll vs ws = true) : describeAll vs = describeAll ws := by
  induction h with
  | nil => rfl
  | cons hfirst _ ih =>
      rw [equalAll, Bool.and_eq_true] at hequal
      rw [describeAll, describeAll, hfirst.same hequal.1, ih hequal.2]

theorem describedAlike_tuple {t : FieldType} {vs ws : List Value} (hvs : ∀ v ∈ vs, HasType t v)
    (hws : ∀ w ∈ ws, HasType t w) (h : ∀ v ∈ vs, ∀ w ∈ ws, DescribedAlike v w) :
    DescribedAlike (.tuple vs) (.tuple ws) := by
  have hequal : (Value.tuple vs).equal (.tuple ws) = equalAll vs ws := by
    simp [Value.tuple, Value.equal]
  refine ⟨fun hall => ?_, fun r s htext => ?_⟩
  · rw [hequal] at hall
    have hpairs : List.Forall₂ DescribedAlike vs ws :=
      List.forall₂_iff_zip.2 ⟨(equalAll_iff_forall₂.1 hall).length_eq, fun hp =>
        h _ (List.of_mem_zip hp).1 _ (List.of_mem_zip hp).2⟩
    rw [describe_tuple, describe_tuple, describeAll_eq hpairs hall]
  · rw [hequal]
    -- the parentheses are the same, and inside them an element is there on both sides or on none
    have hinside : (describeTuple (describeAll vs) ++ r).tail =
        (describeTuple (describeAll ws) ++ s).tail := congrArg List.tail htext
    cases vs with
    | nil =>
        cases ws with
        | nil => exact ⟨rfl, List.append_cancel_left htext⟩
        | cons w ws =>
            rw [describeAll, describeAll, describeTuple_cons, List.cons_append, List.tail_cons,
              List.append_assoc] at hinside
            exact absurd hinside.symm ((hws w List.mem_cons_self).describe_begins.1 _ _)
    | cons v vs =>
        rw [describeAll, describeTuple_cons, List.cons_append, List.tail_cons,
          List.append_assoc] at hinside
        cases ws with
        | nil => exact absurd hinside ((hvs v List.mem_cons_self).describe_begins.1 _ _)
        | cons w ws =>
            rw [describeAll, describeTuple_cons, List.cons_append, List.tail_cons,
              List.append_assoc] at hinside
            obtain ⟨hfirst, hlater⟩ :=
              (h v List.mem_cons_self w List.mem_cons_self).apart _ _ hinside
            obtain ⟨hall, hrest⟩ := tupleEnd_apart (fun v' hv' w' hw' =>
              h v' (List.mem_cons_of_mem v hv') w' (List.mem_cons_of_mem w hw')) hlater
            exact ⟨Bool.and_eq_true_iff.2 ⟨hfirst, hall⟩, hrest⟩

/-! ## Nodes -/

/-- A field with its name. -/
def fieldText (f : String × Text) : Text := f.1.toList ++ '=' :: f.2

/-- Fields after the first, up to the closing parenthesis. -/
theorem fields_apart {names : List String} {vs ws : List Value}
    (h : List.Forall₂ DescribedAlike vs ws) (hlength : names.length = vs.length) {r s : Text}
    (htext : ((names.zip (describeAll vs)).map fieldText).flatMap ([',', ' '] ++ ·) ++ ')' :: r =
      ((names.zip (describeAll ws)).map fieldText).flatMap ([',', ' '] ++ ·) ++ ')' :: s) :
    equalAll vs ws = true ∧ r = s := by
  induction h generalizing names with
  | nil =>
      obtain rfl := List.length_eq_zero_iff.1 hlength
      exact ⟨rfl, (List.cons.inj htext).2⟩
  | @cons v w vs ws hfirst _ ih =>
      obtain ⟨name, names, rfl⟩ := List.exists_cons_of_length_eq_add_one hlength
      simp only [describeAll, List.zip_cons_cons, List.map_cons, List.flatMap_cons, fieldText,
        List.append_assoc, List.cons_append, List.nil_append] at htext
      have hvalue := (List.cons.inj (List.append_cancel_left (List.cons.inj
        (List.cons.inj htext).2).2)).2
      obtain ⟨hequal, hlater⟩ := hfirst.apart _ _ hvalue
      obtain ⟨hall, hrest⟩ := ih (Nat.succ.inj hlength) hlater
      exact ⟨Bool.and_eq_true_iff.2 ⟨hequal, hall⟩, hrest⟩

/-- All fields of a node, up to the closing parenthesis. -/
theorem allFields_apart {names : List String} {vs ws : List Value}
    (h : List.Forall₂ DescribedAlike vs ws) (hlength : names.length = vs.length) {r s : Text}
    (htext : commaSeparated ((names.zip (describeAll vs)).map fieldText) ++ ')' :: r =
      commaSeparated ((names.zip (describeAll ws)).map fieldText) ++ ')' :: s) :
    equalAll vs ws = true ∧ r = s := by
  cases h with
  | nil =>
      obtain rfl := List.length_eq_zero_iff.1 hlength
      exact ⟨rfl, (List.cons.inj htext).2⟩
  | @cons v w vs ws hfirst hlater =>
      obtain ⟨name, names, rfl⟩ := List.exists_cons_of_length_eq_add_one hlength
      simp only [describeAll, List.zip_cons_cons, List.map_cons, commaSeparated_cons, fieldText,
        List.append_assoc, List.cons_append] at htext
      have hvalue := (List.cons.inj (List.append_cancel_left htext)).2
      obtain ⟨hequal, hrest⟩ := hfirst.apart _ _ hvalue
      obtain ⟨hall, hrest'⟩ := fields_apart hlater (Nat.succ.inj hlength) hrest
      exact ⟨Bool.and_eq_true_iff.2 ⟨hequal, hall⟩, hrest'⟩

theorem describe_node_append (type : NodeType) (span : Option Span) (fields : List Value)
    (r : Text) : (Value.node ⟨type, span, fields⟩).describe ++ r = type.name.toList ++ '(' ::
      (commaSeparated ((type.fieldNames.zip (describeAll fields)).map fieldText) ++ ')' :: r) := by
  rw [describe_node, describeFields, List.append_assoc, List.append_assoc]
  rfl

theorem describedAlike_node {type type' : NodeType} {span span' : Option Span} {vs ws : List Value}
    (htype : type ∈ NodeType.declared) (htype' : type' ∈ NodeType.declared)
    (hvs : vs.length = type.fieldTypes.length)
    (h : type = type' → List.Forall₂ DescribedAlike vs ws) :
    DescribedAlike (.node ⟨type, span, vs⟩) (.node ⟨type', span', ws⟩) := by
  have hequal : (Value.node ⟨type, span, vs⟩).equal (.node ⟨type', span', ws⟩) = true ↔
      type = type' ∧ equalAll vs ws = true := by
    rw [Value.equal, Node.equal, Bool.and_eq_true, decide_eq_true_eq]
  refine ⟨fun hnodes => ?_, fun r s htext => ?_⟩
  · obtain ⟨rfl, hall⟩ := hequal.1 hnodes
    rw [describe_node, describe_node, describeAll_eq (h rfl) hall]
  · rw [describe_node_append, describe_node_append] at htext
    -- the name of the type ends at the first parenthesis
    obtain ⟨hname, hfields⟩ := append_mark_inj (NodeType.leftParen_not_mem_name type htype)
      (NodeType.leftParen_not_mem_name type' htype') htext
    obtain rfl := NodeType.name_injective type htype type' htype' (String.toList_inj.1 hname)
    obtain ⟨hall, hrest⟩ := allFields_apart (h rfl)
      ((NodeType.length_fieldNames type htype).trans hvs.symm) hfields
    exact ⟨hequal.2 ⟨rfl, hall⟩, hrest⟩

/-! ## Trees -/

theorem describedAlike_absent_left {t : FieldType} {v : Value} (h : HasType t v)
    (hne : v ≠ .absent) : DescribedAlike .absent v := by
  refine ⟨fun hequal => absurd (Value.isExact_absent v hequal) hne, fun r s htext => ?_⟩
  exact absurd htext.symm (h.describe_begins.2 hne s r)

theorem HasType.not_equal_absent {t : FieldType} {v : Value} (h : HasType t v)
    (hne : v ≠ .absent) : v.equal .absent = false := by
  induction h with
  | absent => exact absurd rfl hne
  | present _ ih => exact ih hne
  | _ => rfl

theorem describedAlike_absent_right {t : FieldType} {v : Value} (h : HasType t v)
    (hne : v ≠ .absent) : DescribedAlike v .absent := by
  refine ⟨fun hequal => ?_, fun r s htext => absurd htext (h.describe_begins.2 hne r s)⟩
  exact absurd ((h.not_equal_absent hne).symm.trans hequal) Bool.false_ne_true

theorem isComponentwise_describedAlike : IsComponentwise DescribedAlike where
  text := describedAlike_text
  operator := describedAlike_operator
  operation := describedAlike_operation
  targetKind := describedAlike_targetKind
  absent := ⟨fun _ => rfl, fun _ _ h => ⟨rfl, List.append_cancel_left h⟩⟩
  absent_left := describedAlike_absent_left
  absent_right := describedAlike_absent_right
  tuple := describedAlike_tuple
  node htype htype' hvs _ h := describedAlike_node htype htype' hvs h

/-- Trees whose fields hold what they are declared with, whatever the texts in them, are equal if
their outlines are equal, and if their descriptions are the same, and only then. -/
theorem equal_iff_outline_and_describe {n m : Node} (hn : n.HasFieldTypes)
    (hm : m.HasFieldTypes) :
    (n.equal m = true ↔ n.outline.equal m.outline = true) ∧
      (n.equal m = true ↔ n.describe = m.describe) := by
  have halike : DescribedAlike (.node n) (.node m) := hn.related isComponentwise_describedAlike hm
  refine ⟨equal_iff_outline hn hm, halike.same, fun h => ?_⟩
  have htext : (Value.node n).describe ++ [] = (Value.node m).describe ++ [] :=
    congrArg (· ++ []) h
  exact (halike.apart [] [] htext).1

/-- A sum whose left operand has any name. -/
def sumWithName (span : Option Span) (name : String) : Node :=
  .binary span (.operation .add) (.node (.identifier none (.text name)))
    (.node (.number none (.text "") (.text "1") (.optionalText none) (.optionalText (some ""))))

example : (sumWithName none "it's\n").describe =
    ("Binary(op=<BinaryOp.ADD: 1>, left=Identifier(name=\"it's\\n\"), " ++
      "right=NumericLiteral(sign='', integer='1', fraction=None, exponent=''))").toList := by
  decide +kernel

theorem hasFieldTypes_sumWithName (span : Option Span) (name : String) :
    (sumWithName span name).HasFieldTypes := by
  have hname : HasType .node (.node (.identifier none (.text name))) :=
    .node (by decide) rfl (List.forall_mem_singleton.2 (.text name))
  have hnumber : HasType .node (.node (.number none (.text "") (.text "1") (.optionalText none)
      (.optionalText (some "")))) := by
    refine .node (by decide) rfl (List.forall_mem_cons.2 ⟨.text "", List.forall_mem_cons.2
      ⟨.text "1", List.forall_mem_cons.2 ⟨.absent, List.forall_mem_singleton.2 ?_⟩⟩⟩)
    exact .present (.text "")
  exact .node (by decide) rfl (List.forall_mem_cons.2 ⟨.operation .add,
    List.forall_mem_cons.2 ⟨hname, List.forall_mem_singleton.2 hnumber⟩⟩)

theorem equal_iff_outline_and_describe_quoted :
    (sumWithName none "it's").HasFieldTypes ∧ (sumWithName none "it's\n").HasFieldTypes ∧
      ((sumWithName none "it's").equal (sumWithName none "it's\n") = true ↔
        (sumWithName none "it's").outline.equal (sumWithName none "it's\n").outline = true) ∧
      ((sumWithName none "it's").equal (sumWithName none "it's\n") = true ↔
        (sumWithName none "it's").describe = (sumWithName none "it's\n").describe) :=
  ⟨hasFieldTypes_sumWithName _ _, hasFieldTypes_sumWithName _ _, equal_iff_outline_and_describe
    (hasFieldTypes_sumWithName _ _) (hasFieldTypes_sumWithName _ _)⟩

end Spruce
